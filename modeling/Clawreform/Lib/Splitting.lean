import Clawreform.Lib.Find

namespace Clawreform.Lib.Splitting

open Clawreform.Lib.Text Clawreform.Lib.Find

variable {sep s t : Str} {c : Char} {n m : Nat}

/-- What stands in front of the first separator, and what stands behind it. -/
def cut (sep s : Str) : Option (Str × Str) :=
  (find sep s).map fun n => (s.take n, s.drop (n + sep.length))

def splitFuel (sep : Str) : Nat → Str → List Str × Str
  | 0, s => ([], s)
  | n + 1, s =>
    match cut sep s with
    | none => ([], s)
    | some (piece, rest) => (piece :: (splitFuel sep n rest).1, (splitFuel sep n rest).2)

/-- The pieces that end with a separator, and what is left. -/
def split (sep s : Str) : List Str × Str := splitFuel sep s.length s

/-- A buffer is filled up again and again, and each time emptied as far as it goes. -/
def feed (sep : Str) : Str → List Str → List Str × Str
  | buffer, [] => ([], buffer)
  | buffer, text :: texts =>
    let p := split sep (buffer ++ text)
    let q := feed sep p.2 texts
    (p.1 ++ q.1, q.2)

theorem cut_eq_some {p : Str × Str} (h : cut sep s = some p) :
    find sep s = some p.1.length ∧ p.1.length + sep.length + p.2.length = s.length ∧
      p = (s.take p.1.length, s.drop (p.1.length + sep.length)) := by
  obtain ⟨n, hn, rfl⟩ := Option.map_eq_some_iff.mp h
  have hle := find_le hn
  have hlen : (s.take n).length = n := List.length_take_of_le (by omega)
  refine ⟨hlen.symm ▸ hn, ?_, ?_⟩
  · rw [hlen, List.length_drop]
    omega
  · rw [hlen]

theorem splitFuel_eq (hsep : sep ≠ []) (hn : s.length ≤ n) (hm : s.length ≤ m) :
    splitFuel sep n s = splitFuel sep m s := by
  induction n generalizing s m with
  | zero =>
    obtain rfl := List.length_eq_zero_iff.mp (Nat.le_zero.mp hn)
    cases m with
    | zero => rfl
    | succ m =>
      have hnone : cut sep [] = none := by
        simp [cut, find, hsep]
      simp only [splitFuel, hnone]
  | succ n ih =>
    cases m with
    | zero =>
      obtain rfl := List.length_eq_zero_iff.mp (Nat.le_zero.mp hm)
      have hnone : cut sep [] = none := by
        simp [cut, find, hsep]
      simp only [splitFuel, hnone]
    | succ m =>
      have hpos := List.length_pos_iff.mpr hsep
      simp only [splitFuel]
      cases hcut : cut sep s with
      | none => rfl
      | some p =>
        have hlen := (cut_eq_some hcut).2.1
        dsimp only
        rw [ih (m := m) (by omega) (by omega)]

theorem split_none (h : find sep s = none) : split sep s = ([], s) := by
  have hcut : cut sep s = none := by rw [cut, h]; rfl
  unfold split
  cases s.length with
  | zero => rfl
  | succ n => simp only [splitFuel, hcut]

theorem split_some (hsep : sep ≠ []) (h : find sep s = some n) :
    split sep s = (s.take n :: (split sep (s.drop (n + sep.length))).1,
      (split sep (s.drop (n + sep.length))).2) := by
  have hpos := List.length_pos_iff.mpr hsep
  have hle := find_le h
  have hcut : cut sep s = some (s.take n, s.drop (n + sep.length)) := by rw [cut, h]; rfl
  obtain ⟨k, hk⟩ := Nat.exists_eq_succ_of_ne_zero (show s.length ≠ 0 by omega)
  have hlen := List.length_drop (i := n + sep.length) (l := s)
  unfold split
  rw [hk]
  simp only [splitFuel, hcut]
  rw [splitFuel_eq hsep (n := k) (m := (s.drop (n + sep.length)).length) (by omega) (by omega)]

/-- More text behind a text leaves its pieces as they are. -/
theorem split_append (hsep : sep ≠ []) (s t : Str) :
    split sep (s ++ t) = ((split sep s).1 ++ (split sep ((split sep s).2 ++ t)).1,
      (split sep ((split sep s).2 ++ t)).2) := by
  generalize hlen : s.length = len
  induction len using Nat.strong_induction_on generalizing s with
  | _ len ih =>
    cases hfind : find sep s with
    | none => rw [split_none hfind]; rfl
    | some n =>
      have hle := find_le hfind
      have hpos := List.length_pos_iff.mpr hsep
      have htake : (s ++ t).take n = s.take n := List.take_append_of_le_length (by omega)
      have hdrop : (s ++ t).drop (n + sep.length) = s.drop (n + sep.length) ++ t :=
        List.drop_append_of_le_length hle
      have hrest := ih (s.drop (n + sep.length)).length
        (by rw [List.length_drop]; omega) _ rfl
      rw [split_some hsep (find_append hfind), htake, hdrop, hrest, split_some hsep hfind]
      rfl

theorem split_rest (hsep : sep ≠ []) (s : Str) :
    split sep (split sep s).2 = ([], (split sep s).2) := by
  have h := split_append hsep s []
  rw [List.append_nil, List.append_nil] at h
  have hfirst := congrArg Prod.fst h
  have hsecond := congrArg Prod.snd h
  dsimp only at hfirst hsecond
  refine Prod.ext ?_ hsecond.symm
  exact List.self_eq_append_right.mp hfirst

theorem feed_eq (hsep : sep ≠ []) {buffer : Str} (h : split sep buffer = ([], buffer))
    (texts : List Str) : feed sep buffer texts = split sep (buffer ++ texts.flatten) := by
  induction texts generalizing buffer with
  | nil => rw [List.flatten_nil, List.append_nil, h]; rfl
  | cons text texts ih =>
    rw [List.flatten_cons, ← List.append_assoc, split_append hsep (buffer ++ text),
      ← ih (split_rest hsep _)]
    rfl

/-- How a text comes in does not matter for its pieces. -/
theorem feed_nil (hsep : sep ≠ []) (texts : List Str) :
    feed sep [] texts = split sep texts.flatten := by
  have hnil : split sep [] = ([], []) := split_none (by simp [find, hsep])
  exact feed_eq hsep hnil texts

section Lines

variable {line : Str}

theorem linesFrom_terminated (ht : '\n' ∉ t) (hlast : (line.reverse ++ t).getLast? ≠ some '\r') :
    linesFrom line (t ++ '\n' :: s) = (line.reverse ++ t) :: lines s := by
  induction t generalizing line with
  | nil =>
    rw [List.append_nil, List.getLast?_reverse] at hlast
    rw [List.nil_append, linesFrom, if_pos rfl, if_neg hlast, List.append_nil]
    rfl
  | cons c t ih =>
    rw [List.mem_cons, not_or] at ht
    rw [List.cons_append, linesFrom, if_neg (Ne.symm ht.1), ih ht.2 (by simpa using hlast)]
    simp

theorem lines_line (ht : '\n' ∉ t) (hlast : t.getLast? ≠ some '\r') :
    lines (t ++ '\n' :: s) = t :: lines s := by
  change linesFrom [] (t ++ '\n' :: s) = (List.reverse [] ++ t) :: lines s
  exact linesFrom_terminated ht hlast

theorem linesFrom_crlf (ht : '\n' ∉ t) :
    linesFrom line (t ++ '\r' :: '\n' :: s) = (line.reverse ++ t) :: lines s := by
  induction t generalizing line with
  | nil => simp [linesFrom, lines]
  | cons c t ih =>
    rw [List.mem_cons, not_or] at ht
    rw [List.cons_append, linesFrom, if_neg (Ne.symm ht.1), ih ht.2]
    simp

theorem lines_crlf (ht : '\n' ∉ t) : lines (t ++ '\r' :: '\n' :: s) = t :: lines s :=
  linesFrom_crlf ht

theorem lines_terminated {ls : List Str}
    (h : ∀ l ∈ ls, '\n' ∉ l ∧ l.getLast? ≠ some '\r') : lines (ls.flatMap (· ++ ['\n'])) = ls := by
  induction ls with
  | nil => rfl
  | cons l ls ih =>
    rw [List.forall_mem_cons] at h
    have htext : (l :: ls).flatMap (· ++ ['\n']) = l ++ '\n' :: ls.flatMap (· ++ ['\n']) := by
      simp
    rw [htext, lines_line h.1.1 h.1.2, ih h.2]

theorem newline_notMem_linesFrom (hline : '\n' ∉ line) : ∀ l ∈ linesFrom line s, '\n' ∉ l := by
  induction s generalizing line with
  | nil =>
    rw [linesFrom]
    split
    · simp
    · simpa using hline
  | cons c s ih =>
    rw [linesFrom]
    split
    · rw [List.forall_mem_cons]
      refine ⟨?_, ih (by simp)⟩
      rw [List.mem_reverse]
      split
      · exact fun h => hline (List.mem_of_mem_tail h)
      · exact hline
    · rename_i hc
      apply ih
      rw [List.mem_cons, not_or]
      exact ⟨Ne.symm hc, hline⟩

theorem linesFrom_last (ht : '\n' ∉ t) (hne : line ++ t ≠ []) :
    linesFrom line t = [line.reverse ++ t] := by
  induction t generalizing line with
  | nil =>
    rw [List.append_nil] at hne
    rw [linesFrom, if_neg hne, List.append_nil]
  | cons c t ih =>
    rw [List.mem_cons, not_or] at ht
    rw [linesFrom, if_neg (Ne.symm ht.1), ih ht.2 (by simp)]
    simp

theorem lines_last (ht : '\n' ∉ t) (hne : t ≠ []) : lines t = [t] := linesFrom_last ht hne

end Lines

section Terminated

theorem find_notMem (h : c ∉ s) : find [c] (s ++ c :: t) = some s.length := by
  induction s with
  | nil => rw [List.nil_append, find, if_pos (by simp)]; rfl
  | cons d s ih =>
    rw [List.mem_cons, not_or] at h
    have hnot : ¬ [c] <+: d :: (s ++ c :: t) := fun hp => h.1 (List.cons_prefix_cons.mp hp).1
    rw [List.cons_append, find_cons_of_not hnot, ih h.2]
    rfl

/-- A blank line ends what has no line break. -/

theorem cut_eq (h : c ∉ s) : cut [c] (s ++ c :: t) = some (s, t) := by
  have hsplit : s ++ c :: t = (s ++ [c]) ++ t := by simp
  rw [cut, find_notMem h, Option.map_some, List.take_left, hsplit]
  exact congrArg (fun w => some (s, w)) (List.drop_left' List.length_append)

theorem cut_some {p : Str × Str} (h : cut [c] s = some p) : s = p.1 ++ c :: p.2 ∧ c ∉ p.1 := by
  obtain ⟨n, hfind, -⟩ := Option.map_eq_some_iff.mp h
  obtain ⟨a, b, hab, -, hinf⟩ := exists_of_find (by simp) hfind
  have hsplit : s = a ++ c :: b := by simp [hab]
  have hnot : c ∉ a := by
    intro hmem
    obtain ⟨x, y, rfl⟩ := List.append_of_mem hmem
    exact hinf ⟨x, y, by simp⟩
  rw [hsplit, cut_eq hnot] at h
  cases h
  exact ⟨hsplit, hnot⟩

theorem find_blank (h : '\n' ∉ s) : find ['\n', '\n'] (s ++ '\n' :: '\n' :: t) = some s.length := by
  induction s with
  | nil => rw [List.nil_append, find, if_pos (by simp)]; rfl
  | cons d s ih =>
    rw [List.mem_cons, not_or] at h
    have hnot : ¬ ['\n', '\n'] <+: d :: (s ++ '\n' :: '\n' :: t) :=
      fun hp => h.1 (List.cons_prefix_cons.mp hp).1
    rw [List.cons_append, find_cons_of_not hnot, ih h.2]
    rfl

/-- A line in front moves the blank line behind it. -/
theorem find_blank_line (h : '\n' ∉ s) (hhead : t.head? ≠ some '\n')
    (ht : find ['\n', '\n'] t = some n) :
    find ['\n', '\n'] (s ++ '\n' :: t) = some (s.length + 1 + n) := by
  induction s with
  | nil =>
    have hnot : ¬ ['\n', '\n'] <+: '\n' :: t := by
      rintro ⟨r, hr⟩
      rw [← List.tail_eq_of_cons_eq hr] at hhead
      exact hhead rfl
    rw [List.nil_append, find_cons_of_not hnot, ht, List.length_nil, Option.map_some]
    congr 1
    omega
  | cons d s ih =>
    rw [List.mem_cons, not_or] at h
    have hnot : ¬ ['\n', '\n'] <+: d :: (s ++ '\n' :: t) :=
      fun hp => h.1 (List.cons_prefix_cons.mp hp).1
    rw [List.cons_append, find_cons_of_not hnot, ih h.2, List.length_cons, Option.map_some]
    congr 1
    omega

/-- Pieces that go to their separators and no further are cut where they end. -/
theorem split_flatMap (hsep : sep ≠ []) {pieces : List Str}
    (h : ∀ p ∈ pieces, find sep (p ++ sep) = some p.length) :
    split sep (pieces.flatMap (· ++ sep)) = (pieces, []) := by
  induction pieces with
  | nil => exact split_none (by simp [find, hsep])
  | cons p pieces ih =>
    rw [List.forall_mem_cons] at h
    have hdrop : ((p ++ sep) ++ pieces.flatMap (· ++ sep)).drop (p.length + sep.length) =
        pieces.flatMap (· ++ sep) := List.drop_left' List.length_append
    have htake : ((p ++ sep) ++ pieces.flatMap (· ++ sep)).take p.length = p := by
      rw [List.append_assoc, List.take_left]
    rw [List.flatMap_cons, split_some hsep (find_append h.1), hdrop, htake, ih h.2]

end Terminated

end Clawreform.Lib.Splitting

namespace Clawreform.Lib.LineEnds

open Clawreform.Lib.Text Clawreform.Lib.Find Clawreform.Lib.Splitting

inductive LineEnd where
  | lf
  | crlf
  deriving DecidableEq

def withReturns (s : Str) : Str := s.flatMap fun c => if c = '\n' then ['\r', '\n'] else [c]

/-- Write a text whose lines end with a newline with other line ends. -/
def LineEnd.write : LineEnd → Str → Str
  | .lf, s => s
  | .crlf, s => withReturns s

variable {s t : Str}

/-- A text is a last line, or a line in front of a text. -/
theorem line_induction {P : Str → Prop} (hlast : ∀ s, '\n' ∉ s → P s)
    (hline : ∀ s t, '\n' ∉ s → P t → P (s ++ '\n' :: t)) (t : Str) : P t := by
  generalize hlen : t.length = len
  induction len using Nat.strong_induction_on generalizing t with
  | _ len ih =>
    by_cases h : '\n' ∈ t
    · obtain ⟨s, r, rfl, hs⟩ := List.eq_append_cons_of_mem h
      rw [List.length_append, List.length_cons] at hlen
      exact hline s r hs (ih r.length (by omega) r rfl)
    · exact hlast t h

theorem withReturns_cons (c : Char) (s : Str) :
    withReturns (c :: s) = (if c = '\n' then ['\r', '\n'] else [c]) ++ withReturns s := rfl

theorem withReturns_append (s t : Str) : withReturns (s ++ t) = withReturns s ++ withReturns t :=
  List.flatMap_append

theorem withReturns_eq_self (h : '\n' ∉ s) : withReturns s = s := by
  induction s with
  | nil => rfl
  | cons c s ih =>
    rw [List.mem_cons, not_or] at h
    rw [withReturns_cons, if_neg (Ne.symm h.1), ih h.2]
    rfl

theorem withReturns_line (h : '\n' ∉ s) :
    withReturns (s ++ '\n' :: t) = s ++ '\r' :: '\n' :: withReturns t := by
  rw [withReturns_append, withReturns_eq_self h]
  rfl

theorem find_newline_none (h : '\n' ∉ s) : find ['\n'] s = none := by
  induction s with
  | nil => rfl
  | cons c s ih =>
    rw [List.mem_cons, not_or] at h
    have hnot : ¬ ['\n'] <+: c :: s := fun hp => h.1 (List.cons_prefix_cons.mp hp).1
    rw [find_cons_of_not hnot, ih h.2]
    rfl

theorem split_newline (h : '\n' ∉ s) : split ['\n'] (s ++ '\n' :: t) =
    (s :: (split ['\n'] t).1, (split ['\n'] t).2) := by
  have hdrop : (s ++ '\n' :: t).drop (s.length + ['\n'].length) = t := by
    rw [List.length_singleton, ← List.drop_drop, List.drop_left]
    rfl
  rw [split_some (by simp) (find_notMem h), hdrop, List.take_left]

/-- The lines of a text with the other line ends have a carriage return behind them. -/
theorem split_withReturns (t : Str) : split ['\n'] (withReturns t) =
    ((split ['\n'] t).1.map (· ++ ['\r']), (split ['\n'] t).2) := by
  induction t using line_induction with
  | hlast s hs =>
    rw [withReturns_eq_self hs, split_none (find_newline_none hs)]
    rfl
  | hline s t hs ih =>
    have hcr : '\n' ∉ s ++ ['\r'] := by
      rw [List.mem_append, not_or]
      exact ⟨hs, by decide⟩
    have hassoc : s ++ '\r' :: '\n' :: withReturns t = (s ++ ['\r']) ++ '\n' :: withReturns t :=
      List.append_cons s '\r' ('\n' :: withReturns t)
    rw [withReturns_line hs, hassoc, split_newline hcr, ih, split_newline hs]
    rfl

theorem head?_withReturns (s : Str) : (withReturns s).head? ≠ some '\n' := by
  cases s with
  | nil => simp [withReturns]
  | cons c s =>
    rw [withReturns_cons]
    split
    · simp
    · rename_i hc
      simpa using hc

/-- There is no blank line without a carriage return. -/
theorem find_blank_withReturns (s : Str) : find ['\n', '\n'] (withReturns s) = none := by
  induction s with
  | nil => rfl
  | cons c s ih =>
    rw [withReturns_cons]
    split
    · have hfirst : ¬ ['\n', '\n'] <+: '\r' :: '\n' :: withReturns s := fun hp =>
        absurd (List.cons_prefix_cons.mp hp).1 (by decide)
      have hsecond : ¬ ['\n', '\n'] <+: '\n' :: withReturns s := by
        rintro ⟨r, hr⟩
        have hhead := head?_withReturns s
        rw [← List.tail_eq_of_cons_eq hr] at hhead
        exact hhead rfl
      change find ['\n', '\n'] ('\r' :: '\n' :: withReturns s) = none
      rw [find_cons_of_not hfirst, find_cons_of_not hsecond, ih]
      rfl
    · rename_i hc
      have hnot : ¬ ['\n', '\n'] <+: c :: withReturns s := fun hp =>
        hc (List.cons_prefix_cons.mp hp).1.symm
      change find ['\n', '\n'] (c :: withReturns s) = none
      rw [find_cons_of_not hnot, ih]
      rfl

end Clawreform.Lib.LineEnds
