import Clawreform.Runtime.PatchFrame
import Mathlib.Data.List.Forall2

namespace Clawreform.Runtime.PatchOrder

open Clawreform.Lib.Text Clawreform.Runtime.ApplyPatch
open Clawreform.Runtime.PatchFrame (place place_le written)

section Trace

/-- A line of the text that is patched, with the number of the line of the file it is. A line
that a hunk puts in has none. -/
structure Numbered where
  number : Option Nat
  text : Str
  deriving DecidableEq

@[grind =] def numberedFrom : Nat → List Str → List Numbered
  | _, [] => []
  | n, text :: texts => ⟨some n, text⟩ :: numberedFrom (n + 1) texts

def anchor (hunk : Hunk) : List Str := hunk.contextBefore ++ hunk.oldLines

/-- A hunk with the numbers of the lines it is matched on. -/
structure Application where
  hunk : Hunk
  matched : List (Option Nat)
  deriving DecidableEq

/-- The lines of the context stay the lines they are. -/
def replaceAt (state : List Numbered) (pos : Nat) (hunk : Hunk) : List Numbered :=
  state.take pos ++ (List.zipWith (fun text old => ⟨old.number, text⟩) hunk.contextBefore
    (state.drop pos) ++ hunk.newLines.map (⟨none, ·⟩)) ++ state.drop (pos + (anchor hunk).length)

/-- What the hunks are matched on, and the lines in the end. -/
def trace : List Numbered → List Hunk → Option (List Application × List Numbered)
  | state, [] => some ([], state)
  | state, hunk :: hunks =>
    (place (state.map Numbered.text) (anchor hunk)).bind fun pos =>
      (trace (replaceAt state pos hunk) hunks).map fun r =>
        (⟨hunk, ((state.drop pos).take (anchor hunk).length).map Numbered.number⟩ :: r.1, r.2)

/-- The lines agree up to whitespace at their ends. -/
def Matches (expected texts : List Str) : Prop := expected.map trimEnd <+: texts.map trimEnd

instance (expected texts : List Str) : Decidable (Matches expected texts) :=
  inferInstanceAs (Decidable (_ <+: _))

/-- A hunk is applied at a place of the file. The lines it is matched on are the lines from
there, and these agree with it and its context. A hunk without lines to match belongs at the
end. -/
structure PlacedAt (file : List Str) (start : Nat) (a : Application) : Prop where
  numbers : a.matched = (List.range' start (anchor a.hunk).length).map some
  texts : Matches (anchor a.hunk ++ a.hunk.contextAfter) (file.drop start)
  atEnd : anchor a.hunk = [] → start = file.length

/-- The places of the hunks in the file come one behind the other. -/
structure InOrder (file : List Str) (applied : List Application) (starts : List Nat) : Prop where
  placed : List.Forall₂ (PlacedAt file) starts applied
  increasing : starts.Pairwise (· < ·)
  apart : (starts.zip applied).Pairwise fun a b => a.1 + (anchor a.2.hunk).length ≤ b.1

end Trace

section Condition

/-- Every hunk is found first behind the hunks in front of it, with its context behind it. The
arguments are the lines up to there, as they are patched, and the rest of the file. -/
def FoundInOrder : List Str → List Str → List Hunk → Prop
  | _, _, [] => True
  | front, rest, hunk :: hunks =>
    ∃ skipped, place (front ++ rest) (anchor hunk) = some (front.length + skipped) ∧
      Matches hunk.contextAfter (rest.drop (skipped + (anchor hunk).length)) ∧
      (anchor hunk = [] → hunks = []) ∧
      FoundInOrder (front ++ rest.take skipped ++ (hunk.contextBefore ++ hunk.newLines))
        (rest.drop (skipped + (anchor hunk).length)) hunks

end Condition

section Tracing

variable {texts expected : List Str} {state : List Numbered} {hunk : Hunk} {n pos : Nat}

theorem numberedFrom_texts (n : Nat) (texts : List Str) :
    (numberedFrom n texts).map Numbered.text = texts := by
  induction texts generalizing n with
  | nil => rfl
  | cons text texts ih => rw [numberedFrom, List.map_cons, ih]

theorem numberedFrom_numbers (n : Nat) (texts : List Str) :
    (numberedFrom n texts).map Numbered.number = (List.range' n texts.length).map some := by
  induction texts generalizing n with
  | nil => rfl
  | cons text texts ih =>
    rw [numberedFrom, List.map_cons, ih, List.length_cons, List.range'_succ, List.map_cons]

theorem length_numberedFrom (n : Nat) (texts : List Str) :
    (numberedFrom n texts).length = texts.length := by
  rw [← List.length_map Numbered.text, numberedFrom_texts]

theorem drop_numberedFrom (n k : Nat) (texts : List Str) :
    (numberedFrom n texts).drop k = numberedFrom (n + k) (texts.drop k) := by
  induction texts generalizing n k with
  | nil => rw [List.drop_nil, numberedFrom, numberedFrom, List.drop_nil]
  | cons text texts ih =>
    cases k with
    | zero => rfl
    | succ k =>
      rw [numberedFrom, List.drop_succ_cons, List.drop_succ_cons, ih, Nat.add_right_comm]
      rfl

theorem take_numberedFrom (n k : Nat) (texts : List Str) :
    (numberedFrom n texts).take k = numberedFrom n (texts.take k) := by
  induction texts generalizing n k with
  | nil => rw [List.take_nil, numberedFrom, List.take_nil]
  | cons text texts ih =>
    cases k with
    | zero => rfl
    | succ k =>
      rw [numberedFrom, List.take_succ_cons, List.take_succ_cons, ih, numberedFrom]

theorem lt_of_mem_numberedFrom {l : Numbered} (h : l ∈ numberedFrom n texts) {i : Nat}
    (hi : l.number = some i) : n ≤ i ∧ i < n + texts.length := by
  have hmem := List.mem_map_of_mem (f := Numbered.number) h
  rw [numberedFrom_numbers, hi] at hmem
  obtain ⟨j, hj, heq⟩ := List.mem_map.mp hmem
  cases heq
  exact List.mem_range'_1.mp hj

theorem matches_append {after : List Str} : Matches (expected ++ after) texts ↔
    Matches expected texts ∧ Matches after (texts.drop expected.length) := by
  have hlen : (expected.map trimEnd).length = expected.length := List.length_map _
  rw [Matches, Matches, Matches, List.map_append, List.map_drop, ← hlen]
  constructor
  · rintro ⟨s, hs⟩
    rw [← hs, List.append_assoc, List.drop_left]
    exact ⟨List.prefix_append .., List.prefix_append ..⟩
  · rintro ⟨⟨s, hs⟩, hafter⟩
    rw [← hs, List.drop_left] at hafter
    rw [← hs]
    exact (List.prefix_append_right_inj _).mpr hafter

theorem place_matches (h : place texts expected = some pos) :
    Matches expected (texts.drop pos) := by
  by_cases hne : expected = []
  · rw [hne]
    exact List.nil_prefix
  have hfound : ∀ key, findAnchorBy key texts expected = some pos →
      expected.map key <+: (texts.drop pos).map key := by
    intro key hkey
    rw [findAnchorBy, if_neg hne] at hkey
    split at hkey
    · cases hkey
    · simpa using List.find?_some hkey
  obtain h | ⟨-, h⟩ := Option.or_eq_some_iff.mp h
  · have hexact := hfound id h
    rw [List.map_id, List.map_id] at hexact
    exact hexact.map trimEnd
  · exact hfound trimEnd h

theorem place_nil (texts : List Str) : place texts [] = some texts.length := rfl

theorem place_bound (h : place texts expected = some pos) :
    pos + expected.length ≤ texts.length := by
  by_cases hne : expected = []
  · subst hne
    rw [place_nil] at h
    cases h
    exact le_rfl
  · exact place_le h hne

theorem applyHunk_place (texts : List Str) (hunk : Hunk) : applyHunk texts hunk =
    (place texts (anchor hunk)).map fun pos => texts.take pos ++
      (hunk.contextBefore ++ hunk.newLines) ++ texts.drop (pos + (anchor hunk).length) := by
  rw [applyHunk, anchor]
  by_cases hnil : hunk.contextBefore ++ hunk.oldLines = []
  · obtain ⟨hbefore, hold⟩ := List.append_eq_nil_iff.mp hnil
    rw [if_pos ⟨hnil, hold⟩, hnil, place_nil, hbefore]
    simp
  · rw [if_neg fun h => hnil h.1, ← place, List.length_append]
    cases place texts (hunk.contextBefore ++ hunk.oldLines) <;> rfl

theorem zipWith_texts (h : texts.length ≤ state.length) :
    (List.zipWith (fun text old => Numbered.mk old.number text) texts state).map Numbered.text =
      texts := by
  induction texts generalizing state with
  | nil => rfl
  | cons text texts ih =>
    cases state with
    | nil => cases h
    | cons l state =>
      rw [List.zipWith_cons_cons, List.map_cons, ih (Nat.le_of_succ_le_succ h)]

theorem zipWith_numbers (texts : List Str) (state : List Numbered) :
    (List.zipWith (fun text old => Numbered.mk old.number text) texts state).map
      Numbered.number = (state.take texts.length).map Numbered.number := by
  induction texts generalizing state with
  | nil => rfl
  | cons text texts ih =>
    cases state with
    | nil => rfl
    | cons l state =>
      rw [List.zipWith_cons_cons, List.map_cons, ih, List.length_cons, List.take_succ_cons,
        List.map_cons]

theorem replaceAt_texts (h : pos + (anchor hunk).length ≤ state.length) :
    (replaceAt state pos hunk).map Numbered.text = (state.map Numbered.text).take pos ++
      (hunk.contextBefore ++ hunk.newLines) ++
        (state.map Numbered.text).drop (pos + (anchor hunk).length) := by
  have hcontext : hunk.contextBefore.length ≤ (state.drop pos).length := by
    rw [anchor, List.length_append] at h
    rw [List.length_drop]
    omega
  have hadded : (hunk.newLines.map (Numbered.mk none)).map Numbered.text = hunk.newLines := by
    rw [List.map_map]
    exact List.map_id _
  simp only [replaceAt, List.map_append, List.map_take, List.map_drop, zipWith_texts hcontext,
    hadded]

/-- The trace follows the code. -/
theorem applyHunksFrom_trace (n : Nat) (state : List Numbered) (hunks : List Hunk) :
    (∃ e, applyHunksFrom n (state.map Numbered.text) hunks = .error e ∧
      trace state hunks = none) ∨
    ∃ applied final, applyHunksFrom n (state.map Numbered.text) hunks =
      .ok (final.map Numbered.text) ∧ trace state hunks = some (applied, final) := by
  induction hunks generalizing n state with
  | nil => exact .inr ⟨[], state, rfl, rfl⟩
  | cons hunk hunks ih =>
    rw [applyHunksFrom, trace, applyHunk_place]
    cases hplace : place (state.map Numbered.text) (anchor hunk) with
    | none => exact .inl ⟨_, rfl, rfl⟩
    | some pos =>
      have hbound := place_bound hplace
      rw [List.length_map] at hbound
      dsimp only [Option.map_some, Option.bind_some]
      rw [← replaceAt_texts hbound]
      obtain ⟨e, herror, hnone⟩ | ⟨applied, final, hok, hsome⟩ :=
        ih (n + 1) (replaceAt state pos hunk)
      · rw [hnone]
        exact .inl ⟨e, herror, rfl⟩
      · rw [hsome]
        exact .inr ⟨_, final, hok, rfl⟩

end Tracing

section Order

variable {rest file : List Str} {front state final : List Numbered} {hunk : Hunk} {hunks : List Hunk}
  {applied : List Application} {n k pos skipped start : Nat} {starts : List Nat} {a : Application}

theorem PlacedAt.le (h : PlacedAt file start a) : start ≤ file.length := by
  by_cases hnil : anchor a.hunk = []
  · exact (h.atEnd hnil).le
  · obtain ⟨hanchor, -⟩ := matches_append.mp h.texts
    have hlen := hanchor.length_le
    rw [List.length_map, List.length_map, List.length_drop] at hlen
    have hpos := List.length_pos_of_ne_nil hnil
    omega

/-- Behind the end of the file no hunk is placed. -/
theorem InOrder.end_nil (h : InOrder file (a :: applied) (file.length :: starts)) :
    applied = [] := by
  obtain ⟨-, hplaced⟩ := List.forall₂_cons.mp h.placed
  cases hplaced with
  | nil => rfl
  | cons hplaced _ =>
    have hlt := (List.pairwise_cons.mp h.increasing).1 _ List.mem_cons_self
    exact absurd hplaced.le (not_le.mpr hlt)

theorem InOrder.tail (h : InOrder file (a :: applied) (start :: starts)) :
    InOrder file applied starts where
  placed := (List.forall₂_cons.mp h.placed).2
  increasing := (List.pairwise_cons.mp h.increasing).2
  apart := by
    have hapart := h.apart
    rw [List.zip_cons_cons] at hapart
    exact (List.pairwise_cons.mp hapart).2

/-- The hunks behind a hunk are placed behind its lines. -/
theorem InOrder.behind (h : InOrder file (a :: applied) (start :: starts)) :
    ∀ s ∈ starts, start + (anchor a.hunk).length ≤ s := by
  intro s hs
  have hapart := h.apart
  rw [List.zip_cons_cons] at hapart
  obtain ⟨i, hi, rfl⟩ := List.getElem_of_mem hs
  have hlen := (List.forall₂_cons.mp h.placed).2.length_eq
  have hmem : (starts[i], applied[i]) ∈ starts.zip applied := by
    rw [← List.getElem_zip (h := by rw [List.length_zip]; omega)]
    exact List.getElem_mem _
  exact (List.pairwise_cons.mp hapart).1 _ hmem

theorem InOrder.cons (h : InOrder file applied starts) (hplaced : PlacedAt file start a)
    (hlast : anchor a.hunk = [] → applied = [])
    (hbehind : ∀ s ∈ starts, start + (anchor a.hunk).length ≤ s) :
    InOrder file (a :: applied) (start :: starts) where
  placed := List.forall₂_cons.mpr ⟨hplaced, h.placed⟩
  increasing := by
    refine List.pairwise_cons.mpr ⟨?_, h.increasing⟩
    intro s hs
    by_cases hnil : anchor a.hunk = []
    · have hempty := hlast hnil
      subst hempty
      rw [List.forall₂_nil_right_iff.mp h.placed] at hs
      cases hs
    · have hpos := List.length_pos_of_ne_nil hnil
      have hle := hbehind s hs
      omega
  apart := by
    rw [List.zip_cons_cons]
    refine List.pairwise_cons.mpr ⟨?_, h.apart⟩
    exact fun b hb => hbehind b.1 (List.of_mem_zip hb).1

/-- A hunk that is found behind some lines is matched on lines of the rest of the file. -/
theorem matched_behind (front : List Numbered) (n : Nat)
    (h : skipped + k ≤ rest.length) :
    (((front ++ numberedFrom n rest).drop (front.length + skipped)).take k).map Numbered.number =
      (List.range' (n + skipped) k).map some := by
  have hlen : ((rest.drop skipped).take k).length = k := by
    rw [List.length_take, List.length_drop]
    omega
  rw [← List.drop_drop, List.drop_left, drop_numberedFrom, take_numberedFrom,
    numberedFrom_numbers, hlen]

/-- The lines up to the end of a hunk found behind some lines. -/
def frontBehind (front : List Numbered) (n : Nat) (rest : List Str) (skipped : Nat)
    (hunk : Hunk) : List Numbered :=
  front ++ numberedFrom n (rest.take skipped) ++
    (List.zipWith (fun text old => ⟨old.number, text⟩) hunk.contextBefore
      (numberedFrom (n + skipped) (rest.drop skipped)) ++ hunk.newLines.map (⟨none, ·⟩))

theorem replaceAt_behind (front : List Numbered) (n : Nat) (rest : List Str) (skipped : Nat)
    (hunk : Hunk) :
    replaceAt (front ++ numberedFrom n rest) (front.length + skipped) hunk =
      frontBehind front n rest skipped hunk ++
        numberedFrom (n + skipped + (anchor hunk).length)
          (rest.drop (skipped + (anchor hunk).length)) := by
  rw [replaceAt, frontBehind, Nat.add_assoc front.length, List.take_length_add_append,
    List.drop_length_add_append, List.drop_length_add_append, take_numberedFrom,
    drop_numberedFrom, drop_numberedFrom, Nat.add_assoc n]

theorem frontBehind_texts (front : List Numbered) (n : Nat)
    (h : skipped + (anchor hunk).length ≤ rest.length) :
    (frontBehind front n rest skipped hunk).map Numbered.text =
      front.map Numbered.text ++ rest.take skipped ++ (hunk.contextBefore ++ hunk.newLines) := by
  have hcontext : hunk.contextBefore.length ≤
      (numberedFrom (n + skipped) (rest.drop skipped)).length := by
    rw [anchor, List.length_append] at h
    rw [length_numberedFrom, List.length_drop]
    omega
  have hadded : (hunk.newLines.map (Numbered.mk none)).map Numbered.text = hunk.newLines := by
    rw [List.map_map]
    exact List.map_id _
  simp only [frontBehind, List.map_append, numberedFrom_texts, zipWith_texts hcontext, hadded]

/-- Lines that are no lines of the file from a number on. -/
def Before (n : Nat) (front : List Numbered) : Prop := ∀ l ∈ front, ∀ i, l.number = some i → i < n

theorem Before.frontBehind (h : Before n front) :
    Before (n + skipped + (anchor hunk).length) (frontBehind front n rest skipped hunk) := by
  have hcontext : hunk.contextBefore.length ≤ (anchor hunk).length := by
    rw [anchor, List.length_append]
    omega
  intro l hl i hi
  rw [PatchOrder.frontBehind, List.mem_append, List.mem_append, List.mem_append] at hl
  obtain (hl | hl) | hl | hl := hl
  · have := h l hl i hi
    omega
  · have := (lt_of_mem_numberedFrom hl hi).2
    rw [List.length_take] at this
    omega
  · have hmem := List.mem_map_of_mem (f := Numbered.number) hl
    rw [zipWith_numbers, take_numberedFrom, hi] at hmem
    obtain ⟨old, hold, hnumber⟩ := List.mem_map.mp hmem
    have := (lt_of_mem_numberedFrom hold hnumber).2
    rw [List.length_take] at this
    omega
  · obtain ⟨text, -, rfl⟩ := List.mem_map.mp hl
    cases hi

/-- A hunk that is matched on lines of the file from a number on is found behind the lines that
are none. -/
theorem found_behind (h : Before n front) (hne : anchor hunk ≠ [])
    (hbound : pos + (anchor hunk).length ≤ (front ++ numberedFrom n rest).length)
    (hstart : n ≤ start)
    (hmatched : (((front ++ numberedFrom n rest).drop pos).take (anchor hunk).length).map
      Numbered.number = (List.range' start (anchor hunk).length).map some) :
    ∃ skipped, pos = front.length + skipped ∧ start = n + skipped := by
  have hpos := List.length_pos_of_ne_nil hne
  by_cases hfront : front.length ≤ pos
  · obtain ⟨skipped, rfl⟩ := Nat.exists_eq_add_of_le hfront
    have hrest : skipped + (anchor hunk).length ≤ rest.length := by
      rw [List.length_append, length_numberedFrom] at hbound
      omega
    rw [matched_behind front n hrest] at hmatched
    have hhead := congrArg List.head? hmatched
    rw [List.head?_map, List.head?_map, List.head?_range', List.head?_range',
      if_neg hpos.ne', if_neg hpos.ne'] at hhead
    cases hhead
    exact ⟨skipped, rfl, rfl⟩
  · rw [not_le] at hfront
    have hhead := congrArg (·[0]?) hmatched
    have hget : front[pos]? = some front[pos] := List.getElem?_eq_getElem hfront
    simp only [List.getElem?_map, List.getElem?_take, if_pos hpos, List.getElem?_drop,
      Nat.add_zero, List.getElem?_append_left hfront, hget, List.getElem?_range' hpos,
      Option.map_some, Option.some.injEq] at hhead
    have hlt := h front[pos] (List.getElem_mem hfront) _ hhead
    omega

theorem trace_cons (h : trace state (hunk :: hunks) = some (applied, final)) :
    ∃ pos rest, place (state.map Numbered.text) (anchor hunk) = some pos ∧
      pos + (anchor hunk).length ≤ state.length ∧
      trace (replaceAt state pos hunk) hunks = some (rest, final) ∧
      applied =
        ⟨hunk, ((state.drop pos).take (anchor hunk).length).map Numbered.number⟩ :: rest := by
  rw [trace] at h
  obtain ⟨pos, hplace, h⟩ := Option.bind_eq_some_iff.mp h
  obtain ⟨⟨rest, final⟩, hr, h⟩ := Option.map_eq_some_iff.mp h
  cases h
  have hbound := place_bound hplace
  rw [List.length_map] at hbound
  exact ⟨pos, rest, hplace, hbound, hr, rfl⟩

theorem length_trace (h : trace state hunks = some (applied, final)) :
    applied.length = hunks.length := by
  induction hunks generalizing state applied with
  | nil =>
    cases h
    rfl
  | cons hunk hunks ih =>
    obtain ⟨pos, rest, -, -, hr, rfl⟩ := trace_cons h
    rw [List.length_cons, List.length_cons, ih hr]

/-- The hunks are placed in order exactly when they are found in order. -/
theorem trace_inOrder_iff (hfront : Before n front) (hn : n ≤ file.length)
    (h : trace (front ++ numberedFrom n (file.drop n)) hunks = some (applied, final)) :
    (∃ starts, InOrder file applied starts ∧ ∀ s ∈ starts, n ≤ s) ↔
      FoundInOrder (front.map Numbered.text) (file.drop n) hunks := by
  induction hunks generalizing n front applied with
  | nil =>
    cases h
    exact iff_of_true ⟨[], ⟨.nil, .nil, .nil⟩, List.forall_mem_nil _⟩ trivial
  | cons hunk hunks ih =>
    obtain ⟨pos, applied, hplace, hbound, hr, rfl⟩ := trace_cons h
    rw [List.map_append, numberedFrom_texts] at hplace
    -- what holds once the hunk is found in the rest of the file
    have hrest : ∀ skipped, pos = front.length + skipped →
        skipped + (anchor hunk).length ≤ (file.drop n).length := by
      rintro skipped rfl
      rw [List.length_append, length_numberedFrom] at hbound
      omega
    have hnext : ∀ skipped, pos = front.length + skipped →
        ((∃ starts, InOrder file applied starts ∧
            ∀ s ∈ starts, n + skipped + (anchor hunk).length ≤ s) ↔
          FoundInOrder (front.map Numbered.text ++ (file.drop n).take skipped ++
            (hunk.contextBefore ++ hunk.newLines))
            ((file.drop n).drop (skipped + (anchor hunk).length)) hunks) := by
      rintro skipped rfl
      have hle := hrest skipped rfl
      rw [replaceAt_behind, List.drop_drop, ← Nat.add_assoc] at hr
      rw [← frontBehind_texts front n hle, List.drop_drop, ← Nat.add_assoc]
      rw [List.length_drop] at hle
      exact ih hfront.frontBehind (by omega) hr
    rw [FoundInOrder, List.length_map]
    constructor
    · rintro ⟨starts, hin, hge⟩
      obtain ⟨start, starts, hplaced, -, rfl⟩ := List.forall₂_cons_right_iff.mp hin.placed
      have hstart := hge start List.mem_cons_self
      have hfound : ∃ skipped, pos = front.length + skipped ∧ start = n + skipped := by
        by_cases hnil : anchor hunk = []
        · rw [hnil, place_nil, List.length_append, List.length_map, Option.some.injEq] at hplace
          refine ⟨(file.drop n).length, hplace.symm, ?_⟩
          rw [hplaced.atEnd hnil, List.length_drop]
          omega
        · exact found_behind hfront hnil hbound hstart hplaced.numbers
      obtain ⟨skipped, hpos, rfl⟩ := hfound
      obtain ⟨-, hafter⟩ := matches_append.mp hplaced.texts
      rw [List.drop_drop] at hafter
      refine ⟨skipped, hpos ▸ hplace, ?_, ?_, ?_⟩
      · rwa [List.drop_drop, ← Nat.add_assoc]
      · intro hnil
        have hend := hplaced.atEnd hnil
        rw [hend] at hin
        rw [← List.length_eq_zero_iff, ← length_trace hr, hin.end_nil, List.length_nil]
      · exact (hnext skipped hpos).mp ⟨starts, hin.tail, hin.behind⟩
    · rintro ⟨skipped, hskipped, hafter, hlast, hfound⟩
      obtain rfl : pos = front.length + skipped := Option.some.inj (hplace.symm.trans hskipped)
      have hle := hrest skipped rfl
      obtain ⟨starts, hin, hge⟩ := (hnext skipped rfl).mpr hfound
      have hplaced : PlacedAt file (n + skipped)
          ⟨hunk, (((front ++ numberedFrom n (file.drop n)).drop (front.length + skipped)).take
            (anchor hunk).length).map Numbered.number⟩ := by
        refine ⟨matched_behind front n hle, matches_append.mpr ⟨?_, ?_⟩, ?_⟩
        · have hmatches := place_matches hplace
          have hlen : (front.map Numbered.text).length = front.length := List.length_map _
          rwa [← hlen, ← List.drop_drop, List.drop_left, List.drop_drop] at hmatches
        · rwa [List.drop_drop, ← Nat.add_assoc, ← List.drop_drop] at hafter
        · intro hnil
          rw [hnil, place_nil, List.length_append, List.length_map, Option.some.injEq,
            Nat.add_right_inj, List.length_drop] at hplace
          omega
      refine ⟨(n + skipped) :: starts, hin.cons hplaced ?_ hge, ?_⟩
      · intro hnil
        rw [← List.length_eq_zero_iff, length_trace hr, hlast hnil, List.length_nil]
      · refine List.forall_mem_cons.mpr ⟨Nat.le_add_right n skipped, ?_⟩
        intro s hs
        have := hge s hs
        omega

end Order

section Result

/-- Hunks that apply are placed in the file one behind the other, each on lines of the file that
agree with it and its context, exactly when each is found first behind the ones in front of it. -/
theorem applyHunks_inOrder_iff (content out : Str) (hunks : List Hunk)
    (h : applyHunks content hunks = .ok out) :
    ∃ applied final, trace (numberedFrom 0 (lines content)) hunks = some (applied, final) ∧
      out = written content (final.map Numbered.text) ∧
      ((∃ starts, InOrder (lines content) applied starts) ↔
        FoundInOrder [] (lines content) hunks) := by
  rw [applyHunks, ← numberedFrom_texts 0 (lines content)] at h
  obtain ⟨e, herror, -⟩ | ⟨applied, final, hok, htrace⟩ :=
    applyHunksFrom_trace 0 (numberedFrom 0 (lines content)) hunks
  · rw [herror] at h
    cases h
  · rw [hok] at h
    obtain rfl : written content (final.map Numbered.text) = out := Except.ok.inj h
    refine ⟨applied, final, htrace, rfl, ?_⟩
    have hstart : Before 0 [] := fun l hl => absurd hl List.not_mem_nil
    have hiff := trace_inOrder_iff hstart (Nat.zero_le (lines content).length) htrace
    rw [List.drop_zero, List.map_nil] at hiff
    rw [← hiff]
    exact exists_congr fun starts => (and_iff_left fun s _ => Nat.zero_le s).symm

/-- Two hunks with context, the second behind the first. -/
theorem applyHunks_inOrder_two : ∃ applied final,
    trace (numberedFrom 0 (lines "a\nb\nc\n".toList))
      [⟨[], ["a".toList], ["x".toList], ["b".toList]⟩, ⟨["b".toList], ["c".toList], [], []⟩] =
        some (applied, final) ∧
    ∃ starts, InOrder (lines "a\nb\nc\n".toList) applied starts := by
  obtain ⟨applied, final, htrace, -, hiff⟩ := applyHunks_inOrder_iff "a\nb\nc\n".toList
    "x\nb\n".toList [⟨[], ["a".toList], ["x".toList], ["b".toList]⟩,
      ⟨["b".toList], ["c".toList], [], []⟩] (by decide)
  refine ⟨applied, final, htrace, hiff.mpr ⟨0, by decide, by decide, by decide, 0, ?_⟩⟩
  exact ⟨by decide, by decide, by decide, trivial⟩

/-- The second hunk is found in the line that the first one puts in. -/
theorem applyHunks_not_inOrder : ¬ ∀ content hunks out applied final,
    applyHunks content hunks = .ok out →
    trace (numberedFrom 0 (lines content)) hunks = some (applied, final) →
    ∃ starts, InOrder (lines content) applied starts := by
  intro h
  obtain ⟨starts, hin⟩ := h "x\ny\nend\n".toList
    [⟨[], ["x".toList], ["y".toList], []⟩, ⟨[], ["y".toList], ["z".toList], ["end".toList]⟩]
    "z\ny\nend\n".toList
    [⟨⟨[], ["x".toList], ["y".toList], []⟩, [some 0]⟩,
      ⟨⟨[], ["y".toList], ["z".toList], ["end".toList]⟩, [none]⟩]
    [⟨none, "z".toList⟩, ⟨some 1, "y".toList⟩, ⟨some 2, "end".toList⟩] (by decide) (by decide)
  obtain ⟨_, _, -, hsecond, -⟩ := List.forall₂_cons_right_iff.mp hin.placed
  obtain ⟨start, _, hplaced, -, -⟩ := List.forall₂_cons_right_iff.mp hsecond
  have hnumbers : [none] = [some start] := hplaced.numbers
  cases hnumbers

end Result

end Clawreform.Runtime.PatchOrder
