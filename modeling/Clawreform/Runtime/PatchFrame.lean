import Clawreform.Lib.Splitting
import Clawreform.Runtime.PatchRoundTrip

namespace Clawreform.Runtime.PatchFrame

open Clawreform.Lib.Text Clawreform.Runtime.ApplyPatch
open Clawreform.Lib.Splitting (newline_notMem_linesFrom)

section Origins

/-- A line of the file with what the code reads of it and the context line last matched on it, or
a line that a hunk puts in. -/
inductive Line where
  | file (raw shown : Str) (context : Option Str)
  | added (text : Str)
  deriving DecidableEq

namespace Line

/-- What the code has for a line. -/
def text : Line → Str
  | file _ shown context => context.getD shown
  | added text => text

/-- What it should be: a line of the file as it stands there. -/
def intended : Line → Str
  | file raw _ _ => raw
  | added text => text

def raw? : Line → Option Str
  | file raw _ _ => some raw
  | added _ => none

/-- A line that stands in the context of a hunk. -/
def matched (line : Str) : Line → Line
  | file raw shown _ => file raw shown (some line)
  | added _ => added line

/-- The last context line matched on a line of the file is that line as it stands in the file;
without a match, what is read of it is the whole line, with no carriage return at its end. -/
def Untouched : Line → Prop
  | file raw shown none => shown = raw
  | file raw _ (some line) => line = raw
  | added _ => True

end Line

def fileState (content : Str) : List Line :=
  List.zipWith (fun raw shown => .file raw shown none) (fileLines content) (lines content)

/-- Where the code finds a hunk. -/
def place (texts anchor : List Str) : Option Nat :=
  (findAnchor texts anchor).or (findAnchorFuzzy texts anchor)

/-- The lines that stay and the new ones. Only the matched old lines go. -/
def trackHunk (left : List Line) (hunk : Hunk) : Option (List Line) :=
  let anchor := hunk.contextBefore ++ hunk.oldLines
  if anchor = [] then some (left ++ hunk.newLines.map .added)
  else
    (place (left.map Line.text) anchor).map fun pos =>
      left.take pos ++ (List.zipWith Line.matched hunk.contextBefore (left.drop pos) ++
        hunk.newLines.map .added) ++
        left.drop (pos + (hunk.contextBefore.length + hunk.oldLines.length))

def trackFrom : List Line → List Hunk → Option (List Line)
  | left, [] => some left
  | left, hunk :: hunks => (trackHunk left hunk).bind fun left => trackFrom left hunks

def track (content : Str) (hunks : List Hunk) : Option (List Line) :=
  trackFrom (fileState content) hunks

/-- The output is made of the lines of the file that stay, as they stand in it, and the new lines
in their places, and it ends with a newline if the file does. -/
structure Faithful (content : Str) (left : List Line) (out : Str) : Prop where
  lines : fileLines out = left.map Line.intended
  newline : left ≠ [] → (out.getLast? = some '\n' ↔ content.getLast? = some '\n')

/-- A file with a newline at its end is not emptied, and no blank line is left last, unless it is
the only one. Without the newline none is left last at all. -/
def EndsWell (content : Str) (left : List Line) : Prop :=
  if content.getLast? = some '\n' then
    left ≠ [] ∧ ((left.map Line.text).getLast? = some [] → left.length = 1)
  else (left.map Line.text).getLast? ≠ some []

/-- The lines that a hunk writes are lines. -/
def OneLiners (hunk : Hunk) : Prop :=
  (∀ line ∈ hunk.contextBefore, '\n' ∉ line) ∧ ∀ line ∈ hunk.newLines, '\n' ∉ line

end Origins

section Tracking

variable {content line s : Str} {left left' : List Line} {hunk : Hunk} {hunks : List Hunk}
  {texts anchor : List Str} {pos n : Nat} {key : Str → Str}

theorem length_linesFrom (line s : Str) :
    (linesFrom line s).length = (fileLinesFrom line s).length := by
  induction s generalizing line with
  | nil =>
    rw [linesFrom, fileLinesFrom]
  | cons c s ih =>
    rw [linesFrom, fileLinesFrom]
    split
    · rw [List.length_cons, List.length_cons, ih]
    · exact ih (c :: line)

theorem fileState_zip {raws shown : List Str} (h : raws.length = shown.length) :
    (List.zipWith (fun raw shown => Line.file raw shown none) raws shown).map Line.text = shown ∧
      (List.zipWith (fun raw shown => Line.file raw shown none) raws shown).filterMap Line.raw? =
        raws := by
  induction raws generalizing shown with
  | nil =>
    obtain rfl := List.length_eq_zero_iff.mp h.symm
    exact ⟨rfl, rfl⟩
  | cons raw raws ih =>
    obtain ⟨t, shown, rfl⟩ := List.exists_cons_of_length_eq_add_one h.symm
    obtain ⟨htext, hraw⟩ := ih (Nat.succ.inj h)
    exact ⟨congrArg (t :: ·) htext, congrArg (raw :: ·) hraw⟩

theorem map_text_fileState (content : Str) : (fileState content).map Line.text = lines content :=
  (fileState_zip (length_linesFrom [] content).symm).1

theorem raws_fileState (content : Str) :
    (fileState content).filterMap Line.raw? = fileLines content :=
  (fileState_zip (length_linesFrom [] content).symm).2

theorem place_le (h : place texts anchor = some pos) (hne : anchor ≠ []) :
    pos + anchor.length ≤ texts.length := by
  have hfound : ∀ key, findAnchorBy key texts anchor = some pos →
      pos + anchor.length ≤ texts.length := by
    intro key hkey
    rw [findAnchorBy, if_neg hne] at hkey
    split at hkey
    · cases hkey
    · have hmem := List.mem_range.mp (List.mem_of_find?_eq_some hkey)
      omega
  obtain h | ⟨-, h⟩ := Option.or_eq_some_iff.mp h
  · exact hfound id h
  · exact hfound trimEnd h

theorem map_text_matched (h : texts.length ≤ left.length) :
    (List.zipWith Line.matched texts left).map Line.text = texts := by
  induction texts generalizing left with
  | nil => rfl
  | cons t texts ih =>
    cases left with
    | nil => simp at h
    | cons l left =>
      have htext : (l.matched t).text = t := by cases l <;> rfl
      rw [List.zipWith_cons_cons, List.map_cons, htext, ih (Nat.le_of_succ_le_succ h)]

/-- The code does to the texts what is tracked of the lines. -/
theorem applyHunk_track (left : List Line) (hunk : Hunk) :
    applyHunk (left.map Line.text) hunk = (trackHunk left hunk).map (List.map Line.text) := by
  have hadded : (hunk.newLines.map Line.added).map Line.text = hunk.newLines := by
    rw [List.map_map]
    exact List.map_id _
  rw [applyHunk, trackHunk]
  by_cases hne : hunk.contextBefore ++ hunk.oldLines = []
  · rw [if_pos ⟨hne, (List.append_eq_nil_iff.mp hne).2⟩, if_pos hne, Option.map_some,
      List.map_append, hadded]
  · rw [if_neg fun h => hne h.1, if_neg hne, ← place]
    cases hplace : place (left.map Line.text) (hunk.contextBefore ++ hunk.oldLines) with
    | none => rfl
    | some pos =>
      have hle := place_le hplace hne
      rw [List.length_append, List.length_map] at hle
      have hcontext : hunk.contextBefore.length ≤ (left.drop pos).length := by
        rw [List.length_drop]
        omega
      simp only [Option.map_some, List.map_append, List.map_take, List.map_drop, hadded,
        map_text_matched hcontext]

theorem applyHunksFrom_track (n : Nat) (left : List Line) (hunks : List Hunk) :
    (∃ e, applyHunksFrom n (left.map Line.text) hunks = .error e ∧ trackFrom left hunks = none) ∨
      ∃ left', applyHunksFrom n (left.map Line.text) hunks = .ok (left'.map Line.text) ∧
        trackFrom left hunks = some left' := by
  induction hunks generalizing n left with
  | nil => exact .inr ⟨left, rfl, rfl⟩
  | cons hunk hunks ih =>
    rw [applyHunksFrom, trackFrom, applyHunk_track]
    cases trackHunk left hunk with
    | none => exact .inl ⟨_, rfl, rfl⟩
    | some left => exact ih (n + 1) left

/-- What stays of the file stays in order. -/
theorem trackHunk_raws (h : trackHunk left hunk = some left') :
    (left'.filterMap Line.raw?).Sublist (left.filterMap Line.raw?) := by
  have hadded : (hunk.newLines.map Line.added).filterMap Line.raw? = [] := by
    rw [List.filterMap_map]
    exact List.filterMap_eq_nil_iff.mpr fun _ _ => rfl
  rw [trackHunk] at h
  by_cases hne : hunk.contextBefore ++ hunk.oldLines = []
  · rw [if_pos hne] at h
    cases h
    rw [List.filterMap_append, hadded, List.append_nil]
  · rw [if_neg hne] at h
    obtain ⟨pos, hplace, rfl⟩ := Option.map_eq_some_iff.mp h
    have hmatched : ∀ (texts : List Str) (ls : List Line),
        ((List.zipWith Line.matched texts ls).filterMap Line.raw?) =
          (ls.take texts.length).filterMap Line.raw? := by
      intro texts ls
      induction texts generalizing ls with
      | nil => rfl
      | cons t texts ih =>
        cases ls with
        | nil => rfl
        | cons l ls =>
          have hraw : (l.matched t).raw? = l.raw? := by cases l <;> rfl
          rw [List.zipWith_cons_cons, List.length_cons, List.take_succ_cons,
            List.filterMap_cons, List.filterMap_cons, hraw, ih]
    have hkept : (left.take pos ++ ((left.drop pos).take hunk.contextBefore.length) ++
        left.drop (pos + (hunk.contextBefore.length + hunk.oldLines.length))).Sublist left := by
      have hrest : left.drop (pos + (hunk.contextBefore.length + hunk.oldLines.length)) =
          ((left.drop pos).drop hunk.contextBefore.length).drop hunk.oldLines.length := by
        rw [List.drop_drop, List.drop_drop]
      have hwhole : left.take pos ++ (left.drop pos).take hunk.contextBefore.length ++
          (left.drop pos).drop hunk.contextBefore.length = left := by
        rw [List.append_assoc, List.take_append_drop, List.take_append_drop]
      have hdropped := (List.drop_sublist hunk.oldLines.length
        ((left.drop pos).drop hunk.contextBefore.length)).append_left
        (left.take pos ++ (left.drop pos).take hunk.contextBefore.length)
      rwa [hwhole, ← hrest] at hdropped
    have hsub := hkept.filterMap Line.raw?
    simpa only [List.filterMap_append, hmatched, hadded, List.append_nil] using hsub

theorem track_raws (h : trackFrom left hunks = some left') :
    (left'.filterMap Line.raw?).Sublist (left.filterMap Line.raw?) := by
  induction hunks generalizing left with
  | nil =>
    cases h
    exact List.Sublist.refl _
  | cons hunk hunks ih =>
    obtain ⟨mid, hmid, hrest⟩ := Option.bind_eq_some_iff.mp h
    exact (ih hrest).trans (trackHunk_raws hmid)

/-- No text has a newline in it. -/
def Flat (texts : List Str) : Prop := ∀ t ∈ texts, '\n' ∉ t

theorem trackHunk_flat (h : trackHunk left hunk = some left') (hhunk : OneLiners hunk)
    (hflat : Flat (left.map Line.text)) : Flat (left'.map Line.text) := by
  have hcode : applyHunk (left.map Line.text) hunk = some (left'.map Line.text) := by
    rw [applyHunk_track, h, Option.map_some]
  rw [applyHunk] at hcode
  split at hcode
  · rw [← Option.some.inj hcode]
    exact List.forall_mem_append.mpr ⟨hflat, hhunk.2⟩
  · split at hcode
    · cases hcode
    · rw [← Option.some.inj hcode]
      refine List.forall_mem_append.mpr ⟨List.forall_mem_append.mpr ⟨?_, ?_⟩, ?_⟩
      · exact fun t ht => hflat t (List.mem_of_mem_take ht)
      · exact List.forall_mem_append.mpr hhunk
      · exact fun t ht => hflat t (List.mem_of_mem_drop ht)

theorem track_flat (hhunks : ∀ hunk ∈ hunks, OneLiners hunk) (hflat : Flat (left.map Line.text))
    (h : trackFrom left hunks = some left') : Flat (left'.map Line.text) := by
  induction hunks generalizing left with
  | nil =>
    cases h
    exact hflat
  | cons hunk hunks ih =>
    obtain ⟨hhunk, hhunks⟩ := List.forall_mem_cons.mp hhunks
    obtain ⟨mid, hmid, hrest⟩ := Option.bind_eq_some_iff.mp h
    exact ih hhunks (trackHunk_flat hmid hhunk hflat) hrest

end Tracking

section Ending

variable {texts : List Str} {t s line : Str}

theorem fileLinesFrom_line (ht : '\n' ∉ t) :
    fileLinesFrom line (t ++ '\n' :: s) = (line.reverse ++ t) :: fileLines s := by
  induction t generalizing line with
  | nil =>
    rw [List.nil_append, fileLinesFrom, if_pos rfl, List.append_nil]
    rfl
  | cons c t ih =>
    rw [List.mem_cons, not_or] at ht
    rw [List.cons_append, fileLinesFrom, if_neg (Ne.symm ht.1), ih ht.2]
    simp

theorem fileLinesFrom_last (ht : '\n' ∉ t) (hne : line ++ t ≠ []) :
    fileLinesFrom line t = [line.reverse ++ t] := by
  induction t generalizing line with
  | nil =>
    rw [List.append_nil] at hne
    rw [fileLinesFrom, if_neg hne, List.append_nil]
  | cons c t ih =>
    rw [List.mem_cons, not_or] at ht
    rw [fileLinesFrom, if_neg (Ne.symm ht.1), ih ht.2 (by simp)]
    simp

theorem fileLines_line (ht : '\n' ∉ t) : fileLines (t ++ '\n' :: s) = t :: fileLines s :=
  fileLinesFrom_line ht

theorem joined_cons_cons (t t' : Str) (texts : List Str) :
    ['\n'].intercalate (t :: t' :: texts) = t ++ '\n' :: ['\n'].intercalate (t' :: texts) := by
  rw [List.intercalate_cons_cons, List.append_assoc, List.singleton_append]

/-- Lines with a newline behind each of them. -/
theorem fileLines_terminated (hflat : Flat texts) (hne : texts ≠ []) :
    fileLines (['\n'].intercalate texts ++ ['\n']) = texts := by
  induction texts with
  | nil => exact absurd rfl hne
  | cons t texts ih =>
    obtain ⟨ht, htexts⟩ := List.forall_mem_cons.mp hflat
    cases texts with
    | nil =>
      rw [List.intercalate_singleton, fileLines_line ht]
      rfl
    | cons t' texts =>
      rw [joined_cons_cons, List.append_assoc, List.cons_append, fileLines_line ht,
        ih htexts (List.cons_ne_nil t' texts)]

/-- The last line needs no newline unless it is blank. -/
theorem fileLines_joined (hflat : Flat texts) (hlast : texts.getLast? ≠ some []) :
    fileLines (['\n'].intercalate texts) = texts := by
  induction texts with
  | nil => rfl
  | cons t texts ih =>
    obtain ⟨ht, htexts⟩ := List.forall_mem_cons.mp hflat
    cases texts with
    | nil =>
      rw [List.getLast?_singleton, ne_eq, Option.some.injEq] at hlast
      rw [List.intercalate_singleton]
      exact fileLinesFrom_last ht hlast
    | cons t' texts =>
      rw [List.getLast?_cons_cons] at hlast
      rw [joined_cons_cons, fileLines_line ht, ih htexts hlast]

theorem joined_ends_iff (hflat : Flat texts) :
    (['\n'].intercalate texts).getLast? = some '\n' ↔
      texts.getLast? = some [] ∧ texts.length ≠ 1 := by
  induction texts with
  | nil => simp
  | cons t texts ih =>
    obtain ⟨ht, htexts⟩ := List.forall_mem_cons.mp hflat
    cases texts with
    | nil =>
      rw [List.intercalate_singleton]
      refine iff_of_false (fun h => ht (List.mem_of_getLast? h)) fun h => h.2 rfl
    | cons t' texts =>
      have hlast : ∀ x : Str, (t ++ '\n' :: x).getLast? = some '\n' ↔
          x = [] ∨ x.getLast? = some '\n' := by
        intro x
        rcases x.eq_nil_or_concat with rfl | ⟨y, c, rfl⟩
        · simp
        · rw [List.concat_eq_append, ← List.cons_append, ← List.append_assoc,
            List.getLast?_concat, List.getLast?_concat]
          simp
      rw [joined_cons_cons, hlast, ih htexts, List.getLast?_cons_cons]
      cases texts with
      | nil =>
        rw [List.intercalate_singleton, List.getLast?_singleton, Option.some.injEq]
        simp
      | cons t'' texts =>
        rw [joined_cons_cons]
        simp

theorem joined_blank (hne : texts ≠ []) :
    ['\n'].intercalate (texts ++ [[]]) = ['\n'].intercalate texts ++ ['\n'] := by
  induction texts with
  | nil => exact absurd rfl hne
  | cons t texts ih =>
    cases texts with
    | nil => simp
    | cons t' texts =>
      rw [List.cons_append, List.cons_append, joined_cons_cons, joined_cons_cons,
        ← List.cons_append, ih (List.cons_ne_nil t' texts), List.append_assoc]
      rfl

/-- A blank last line is lost. -/
theorem fileLines_blank (hflat : Flat texts) :
    fileLines (['\n'].intercalate (texts ++ [[]])) = texts := by
  by_cases hne : texts = []
  · rw [hne]
    rfl
  · rw [joined_blank hne, fileLines_terminated hflat hne]

end Ending

section Parsing

variable {pat s t : Str} {body : List Str} {p : HunkParse}

theorem newline_notMem_stripPrefix (h : stripPrefix pat s = some t) (hs : '\n' ∉ s) :
    '\n' ∉ t := by
  rw [stripPrefix] at h
  split at h
  · cases h
    exact fun hmem => hs (List.mem_of_mem_drop hmem)
  · cases h

theorem OneLiners.context (hp : OneLiners p.hunk) (hs : '\n' ∉ s) :
    OneLiners (p.context s).hunk := by
  rw [HunkParse.context]
  split
  · exact hp
  · exact ⟨List.forall_mem_append.mpr ⟨hp.1, List.forall_mem_singleton.mpr hs⟩, hp.2⟩

theorem OneLiners.line (hp : OneLiners p.hunk) (hs : '\n' ∉ s) : OneLiners (p.line s).hunk := by
  rw [HunkParse.line]
  split
  · exact hp
  · split
    · rename_i hadded
      have hnew := newline_notMem_stripPrefix hadded hs
      exact ⟨hp.1, List.forall_mem_append.mpr ⟨hp.2, List.forall_mem_singleton.mpr hnew⟩⟩
    · split
      · rename_i hcontext
        exact hp.context (newline_notMem_stripPrefix hcontext hs)
      · split
        · exact hp.context List.not_mem_nil
        · exact hp.context hs

/-- The hunks of a patch write lines, since the patch was split into lines. -/
theorem parseHunks_oneLiners (h : ∀ line ∈ body, '\n' ∉ line) :
    ∀ hunk ∈ parseHunks body, OneLiners hunk := by
  have hhunk : ∀ (ls : List Str) (p : HunkParse), (∀ line ∈ ls, '\n' ∉ line) →
      OneLiners p.hunk → OneLiners (ls.foldl HunkParse.line p).hunk := by
    intro ls p hls hp
    induction ls generalizing p with
    | nil => exact hp
    | cons l ls ih =>
      obtain ⟨hl, hls⟩ := List.forall_mem_cons.mp hls
      exact ih (p.line l) hls (hp.line hl)
  induction body with
  | nil => exact fun _ hmem => absurd hmem List.not_mem_nil
  | cons line body ih =>
    obtain ⟨-, hbody⟩ := List.forall_mem_cons.mp h
    rw [parseHunks]
    split
    · refine List.forall_mem_cons.mpr ⟨hhunk _ _ (fun l hl => ?_) ⟨List.forall_mem_nil _, List.forall_mem_nil _⟩,
        ih hbody⟩
      exact hbody l ((List.takeWhile_prefix _).subset hl)
    · exact ih hbody

end Parsing

section Frame

variable {content out : Str} {left : List Line} {hunks : List Hunk}

/-- The text the code writes for some lines. -/
def written (content : Str) (texts : List Str) : Str :=
  let result := ['\n'].intercalate texts
  if content.getLast? = some '\n' ∧ result.getLast? ≠ some '\n' then result ++ ['\n'] else result

theorem text_eq_intended_iff (l : Line) : l.text = l.intended ↔ l.Untouched := by
  cases l with
  | file raw shown context => cases context <;> rfl
  | added text => exact iff_of_true rfl trivial

theorem map_text_eq_iff (left : List Line) :
    left.map Line.text = left.map Line.intended ↔ ∀ l ∈ left, l.Untouched := by
  rw [List.map_inj_left]
  exact forall₂_congr fun l _ => text_eq_intended_iff l

/-- When a blank line is left last, the output has a line less. -/
theorem not_lines_of_blank (hflat : Flat (left.map Line.text))
    (hblank : (left.map Line.text).getLast? = some []) :
    fileLines (['\n'].intercalate (left.map Line.text)) ≠ left.map Line.intended := by
  intro h
  obtain ⟨texts, htexts⟩ := List.getLast?_eq_some_iff.mp hblank
  rw [htexts, fileLines_blank fun t ht => hflat t (by rw [htexts]; simp [ht])] at h
  have hlength := congrArg List.length htexts
  have hlength' := congrArg List.length h
  simp only [List.length_map, List.length_append, List.length_singleton] at hlength hlength'
  omega

theorem faithful_iff (hflat : Flat (left.map Line.text)) :
    Faithful content left (written content (left.map Line.text)) ↔
      (∀ l ∈ left, l.Untouched) ∧ EndsWell content left := by
  have hjoined := joined_ends_iff hflat
  rw [written, EndsWell, ← map_text_eq_iff]
  by_cases hnewline : content.getLast? = some '\n'
  · by_cases hends : (['\n'].intercalate (left.map Line.text)).getLast? = some '\n'
    · rw [if_neg fun h => h.2 hends, if_pos hnewline]
      obtain ⟨hblank, hlong⟩ := hjoined.mp hends
      rw [List.length_map] at hlong
      exact iff_of_false (fun h => not_lines_of_blank hflat hblank h.lines)
        fun h => hlong (h.2.2 hblank)
    · rw [if_pos ⟨hnewline, hends⟩, if_pos hnewline]
      by_cases hne : left = []
      · subst hne
        exact iff_of_false (fun h => nomatch h.lines) fun h => h.2.1 rfl
      · have hlines := fileLines_terminated hflat (mt List.map_eq_nil_iff.mp hne)
        have hlast : (['\n'].intercalate (left.map Line.text) ++ ['\n']).getLast? = some '\n' :=
          List.getLast?_concat
        constructor
        · intro h
          refine ⟨hlines.symm.trans h.lines, hne, fun hblank => ?_⟩
          by_contra hlong
          exact hends (hjoined.mpr ⟨hblank, by rwa [List.length_map]⟩)
        · exact fun h => ⟨hlines.trans h.1, fun _ => iff_of_true hlast hnewline⟩
  · rw [if_neg fun h => hnewline h.1, if_neg hnewline]
    by_cases hblank : (left.map Line.text).getLast? = some []
    · exact iff_of_false (fun h => not_lines_of_blank hflat hblank h.lines) fun h => h.2 hblank
    · have hlines := fileLines_joined hflat hblank
      have hends : (['\n'].intercalate (left.map Line.text)).getLast? ≠ some '\n' :=
        fun h => hblank (hjoined.mp h).1
      constructor
      · exact fun h => ⟨hlines.symm.trans h.lines, hblank⟩
      · exact fun h => ⟨hlines.trans h.1, fun _ => iff_of_false hends hnewline⟩

/-- Hunks that apply leave the lines of the file, and its end, as they were exactly when every
line that stays is untouched and the lines that are left end well. -/
theorem applyHunks_faithful_iff (content out : Str) (hunks : List Hunk)
    (hhunks : ∀ hunk ∈ hunks, OneLiners hunk) (h : applyHunks content hunks = .ok out) :
    ∃ left, track content hunks = some left ∧
      (left.filterMap Line.raw?).Sublist (fileLines content) ∧
      (Faithful content left out ↔ (∀ l ∈ left, l.Untouched) ∧ EndsWell content left) := by
  rw [applyHunks, ← map_text_fileState] at h
  obtain ⟨e, herror, -⟩ | ⟨left, hok, htrack⟩ := applyHunksFrom_track 0 (fileState content) hunks
  · rw [herror] at h
    cases h
  · rw [hok] at h
    obtain rfl : written content (left.map Line.text) = out := Except.ok.inj h
    have hstart : Flat ((fileState content).map Line.text) := by
      rw [map_text_fileState]
      exact newline_notMem_linesFrom List.not_mem_nil
    refine ⟨left, htrack, ?_, faithful_iff (track_flat hhunks hstart htrack)⟩
    rw [← raws_fileState]
    exact track_raws htrack

/-- The second of two lines with carriage returns, when the first one is replaced. -/
theorem applyHunks_not_faithful : ¬ ∀ content hunks out left,
    applyHunks content hunks = .ok out → track content hunks = some left →
      Faithful content left out := by
  intro h
  have hlines := (h "a\r\nb\r\n".toList [⟨[], ["a".toList], ["c".toList], []⟩]
    "c\nb\n".toList [.added "c".toList, .file "b\r".toList "b".toList none] (by decide)
    (by decide)).lines
  revert hlines
  decide

theorem applyHunks_faithful_iff_oneLine : ∃ left,
    track "a\nb\n".toList [⟨[], ["a".toList], ["c".toList], []⟩] = some left ∧
      (left.filterMap Line.raw?).Sublist (fileLines "a\nb\n".toList) ∧
      (Faithful "a\nb\n".toList left "c\nb\n".toList ↔
        (∀ l ∈ left, l.Untouched) ∧ EndsWell "a\nb\n".toList left) := by
  refine applyHunks_faithful_iff _ _ [⟨[], ["a".toList], ["c".toList], []⟩] ?_ (by decide)
  rintro hunk hmem
  rw [List.mem_singleton] at hmem
  subst hmem
  exact ⟨nofun, by decide⟩

end Frame

end Clawreform.Runtime.PatchFrame
