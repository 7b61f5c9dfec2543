import Clawreform.Lib.Splitting
import Clawreform.Lib.Trimming
import Clawreform.Runtime.ApplyPatch

namespace Clawreform.Runtime.ApplyPatch

open Clawreform.Lib.Text Clawreform.Lib.Splitting Clawreform.Lib.Trimming

section Differences

/-- The lines of a text, each without its newline; the current line is kept backwards. -/
@[grind =] def fileLinesFrom (line : Str) : Str → List Str
  | [] => if line = [] then [] else [line.reverse]
  | c :: s =>
    if c = '\n' then line.reverse :: fileLinesFrom [] s else fileLinesFrom (c :: line) s

def fileLines (s : Str) : List Str := fileLinesFrom [] s

/-- A line of a hunk. An empty line of context may lose its blank. -/
inductive DiffLine where
  | context (line : Str)
  | blank
  | removed (line : Str)
  | added (line : Str)
  deriving DecidableEq

namespace DiffLine

def text : DiffLine → Str
  | context line => ' ' :: line
  | blank => []
  | removed line => '-' :: line
  | added line => '+' :: line

def isContext : DiffLine → Bool
  | context _ => true
  | blank => true
  | _ => false

def old : DiffLine → Option Str
  | context line => some line
  | blank => some []
  | removed line => some line
  | added _ => none

def new : DiffLine → Option Str
  | context line => some line
  | blank => some []
  | removed _ => none
  | added line => some line

end DiffLine

/-- A hunk with the unchanged lines behind it that the difference does not show. -/
structure DiffHunk where
  heading : Str
  lines : List DiffLine
  unchanged : List Str
  oneLine : '\n' ∉ heading ∧ '\r' ∉ heading
  deriving DecidableEq

namespace DiffHunk

variable (h : DiffHunk)

def lead : List DiffLine := h.lines.takeWhile DiffLine.isContext

def change : List DiffLine := (h.lines.dropWhile DiffLine.isContext).takeWhile (! ·.isContext)

def trail : List DiffLine := (h.lines.dropWhile DiffLine.isContext).dropWhile (! ·.isContext)

def before : List Str := h.lead.filterMap DiffLine.old

def removed : List Str := h.change.filterMap DiffLine.old

def added : List Str := h.change.filterMap DiffLine.new

def after : List Str := h.trail.filterMap DiffLine.old

/-- All that changes stands together. -/
def OneChange : Prop := h.trail.all DiffLine.isContext

instance : Decidable h.OneChange := inferInstanceAs (Decidable (_ = true))

def text : List Str := ("@@".toList ++ h.heading) :: h.lines.map DiffLine.text

end DiffHunk

/-- A difference as it is shown: the hunks, with the unchanged lines around them. -/
structure Diff where
  unchanged : List Str
  hunks : List DiffHunk
  shown : hunks ≠ []
  deriving DecidableEq

def oldLinesOf (hunks : List DiffHunk) : List Str :=
  hunks.flatMap fun h => h.lines.filterMap DiffLine.old ++ h.unchanged

def newLinesOf (hunks : List DiffHunk) : List Str :=
  hunks.flatMap fun h => h.lines.filterMap DiffLine.new ++ h.unchanged

namespace Diff

variable (d : Diff)

def Between (old new : Str) : Prop :=
  fileLines old = d.unchanged ++ oldLinesOf d.hunks ∧
    fileLines new = d.unchanged ++ newLinesOf d.hunks

instance (old new : Str) : Decidable (d.Between old new) := inferInstanceAs (Decidable (_ ∧ _))

def textLines (path : Str) : List Str :=
  "*** Begin Patch".toList :: ("*** Update File: ".toList ++ path) ::
    (d.hunks.flatMap DiffHunk.text ++ ["*** End Patch".toList])

/-- The difference as an update of the file at `path`. -/
def render (path : Str) : Str := (d.textLines path).flatMap (· ++ ['\n'])

end Diff

variable {Path : Type} [DecidableEq Path]

/-- The patch writes the new text to the file, and does nothing else. -/
def WritesExactly (host : Host Path) (disk : Disk Path) (path : Str) (d : Diff) (target : Path)
    (new : Str) : Prop :=
  ∃ ops, parsePatch (d.render path) = .ok ops ∧
    applyPatch host ops disk = (Function.update disk target (some new), ⟨0, 1, 0, 0, []⟩)

end Differences

section Conditions

/-- The anchor of the hunk leads to the place of the hunk, behind the lines `done` of the
changed file and in front of the lines `rest` of the old one. -/
def Lands (done : List Str) (h : DiffHunk) (rest : List Str) : Prop :=
  h.removed = h.added ∨
    (h.before ++ h.removed = [] → h.after ++ rest = []) ∧
      (h.before ++ h.removed ≠ [] → ∀ start < done.length,
        ¬ h.before ++ h.removed <+:
          (done ++ (h.before ++ h.removed ++ (h.after ++ rest))).drop start)

instance (done : List Str) (h : DiffHunk) (rest : List Str) : Decidable (Lands done h rest) :=
  inferInstanceAs (Decidable (_ ∨ _ ∧ _))

def AllLand : List Str → List DiffHunk → Prop
  | _, [] => True
  | done, h :: hunks =>
    Lands done h (h.unchanged ++ oldLinesOf hunks) ∧
      AllLand (done ++ (h.before ++ h.added ++ (h.after ++ h.unchanged))) hunks

instance instDecidableAllLand : (done : List Str) → (hunks : List DiffHunk) →
    Decidable (AllLand done hunks)
  | _, [] => inferInstanceAs (Decidable True)
  | done, h :: hunks =>
    have := instDecidableAllLand (done ++ (h.before ++ h.added ++ (h.after ++ h.unchanged))) hunks
    inferInstanceAs (Decidable (_ ∧ _))

/-- What a path must be like to be read back from the line that names it. -/
structure PlainPath (path : Str) : Prop where
  trimmed : trim path = path
  nonempty : path ≠ []
  oneLine : '\n' ∉ path
  stays : updateTarget path = (path, none)

structure Diff.Applies (d : Diff) (path : Str) : Prop where
  path : PlainPath path
  breaks : ∀ line ∈ d.unchanged ++ (oldLinesOf d.hunks ++ newLinesOf d.hunks),
    line.getLast? ≠ some '\r'
  contexts : ∀ h ∈ d.hunks, ∀ line, .context line ∈ h.lines →
    ¬ isHeader line ∧ ¬ isMarker line
  changes : ∀ h ∈ d.hunks, h.OneChange
  anchors : AllLand d.unchanged d.hunks

/-- The new text ends with one newline if the old text ends with a newline, and with none if
it does not. -/
def EndsAlike (old new : Str) : Prop :=
  (old.getLast? = some '\n' → new.getLast? = some '\n' ∧ ¬ ['\n', '\n'] <:+ new) ∧
    (old.getLast? ≠ some '\n' → new.getLast? ≠ some '\n')

instance (old new : Str) : Decidable (EndsAlike old new) :=
  inferInstanceAs (Decidable (_ ∧ _))

end Conditions

section Lines

variable {s t line : Str} {c : Char}

theorem linesFrom_eq (h : ∀ l ∈ fileLinesFrom line s, l.getLast? ≠ some '\r') :
    linesFrom line s = fileLinesFrom line s := by
  induction s generalizing line with
  | nil => rfl
  | cons c s ih =>
    rw [linesFrom, fileLinesFrom]
    rw [fileLinesFrom] at h
    split
    · rename_i hc
      rw [if_pos hc] at h
      have hlast := h _ List.mem_cons_self
      rw [List.getLast?_reverse] at hlast
      rw [if_neg hlast, ih fun l hl => h l (List.mem_cons_of_mem _ hl)]
    · rename_i hc
      rw [if_neg hc] at h
      exact ih h

theorem lines_eq (h : ∀ l ∈ fileLines s, l.getLast? ≠ some '\r') : lines s = fileLines s :=
  linesFrom_eq h

theorem newline_notMem (hline : '\n' ∉ line) : ∀ l ∈ fileLinesFrom line s, '\n' ∉ l := by
  induction s generalizing line with
  | nil =>
    rw [fileLinesFrom]
    split
    · simp
    · simpa using hline
  | cons c s ih =>
    rw [fileLinesFrom]
    split
    · rw [List.forall_mem_cons]
      exact ⟨by simpa using hline, ih (by simp)⟩
    · rename_i hc
      apply ih
      rw [List.mem_cons, not_or]
      exact ⟨Ne.symm hc, hline⟩

theorem fileLinesFrom_ne_nil (h : line ≠ [] ∨ s ≠ []) : fileLinesFrom line s ≠ [] := by
  induction s generalizing line with
  | nil =>
    rw [fileLinesFrom, if_neg (by simpa using h)]
    simp
  | cons c s ih =>
    rw [fileLinesFrom]
    split
    · simp
    · exact ih (Or.inl (List.cons_ne_nil c line))

theorem intercalate_fileLinesFrom :
    ['\n'].intercalate (fileLinesFrom line s) ++ (if s.getLast? = some '\n' then ['\n'] else []) =
      line.reverse ++ s := by
  induction s generalizing line with
  | nil =>
    rw [fileLinesFrom]
    split
    · rename_i hline
      rw [hline]
      rfl
    · simp
  | cons c s ih =>
    rw [fileLinesFrom]
    split
    · rename_i hc
      subst hc
      cases s with
      | nil => simp [fileLinesFrom]
      | cons d s =>
        have hne : fileLinesFrom [] (d :: s) ≠ [] :=
          fileLinesFrom_ne_nil (Or.inr (List.cons_ne_nil d s))
        obtain ⟨l, ls, hls⟩ := List.exists_cons_of_ne_nil hne
        have hrest := @ih []
        rw [hls] at hrest ⊢
        rw [List.intercalate_cons_cons, List.getLast?_cons_cons, List.append_assoc,
          List.append_assoc, hrest]
        simp
    · rename_i hc
      have hrest := @ih (c :: line)
      have hlast : (c :: s).getLast? = some '\n' ↔ s.getLast? = some '\n' := by
        cases s with
        | nil => simp [hc]
        | cons d s => rw [List.getLast?_cons_cons]
      simp only [hlast, hrest]
      simp

/-- A text is its lines, with newlines between them and one at the end if it had one. -/
theorem intercalate_fileLines (s : Str) :
    ['\n'].intercalate (fileLines s) ++ (if s.getLast? = some '\n' then ['\n'] else []) = s :=
  intercalate_fileLinesFrom

end Lines

section Reading

variable {h : DiffHunk} {ls : List DiffLine} {b o n a : List Str} {i q : Bool} {c : Char} {s : Str}

theorem line_context (p : HunkParse) {l : DiffLine} (hl : l.isContext) :
    p.line l.text = p.context (l.old.getD []) := by
  cases l with
  | context line => simp [HunkParse.line, stripPrefix, DiffLine.text, DiffLine.old]
  | blank => simp [HunkParse.line, stripPrefix, DiffLine.text, DiffLine.old, trim, trimStart, trimEnd]
  | removed line => cases hl
  | added line => cases hl

theorem foldl_lead (hls : ∀ l ∈ ls, l.isContext) :
    (ls.map DiffLine.text).foldl HunkParse.line ⟨⟨b, [], [], []⟩, false, false⟩ =
      ⟨⟨b ++ ls.filterMap DiffLine.old, [], [], []⟩, false, false⟩ := by
  induction ls generalizing b with
  | nil => simp
  | cons l ls ih =>
    rw [List.forall_mem_cons] at hls
    rw [List.map_cons, List.foldl_cons, line_context _ hls.1]
    have hnext := ih (b := b ++ [l.old.getD []]) hls.2
    cases l with
    | context line => simpa [HunkParse.context, DiffLine.old] using hnext
    | blank => simpa [HunkParse.context, DiffLine.old] using hnext
    | removed line => cases hls.1
    | added line => cases hls.1

theorem foldl_change (hls : ∀ l ∈ ls, l.isContext = false) :
    (ls.map DiffLine.text).foldl HunkParse.line ⟨⟨b, o, n, []⟩, i, false⟩ =
      ⟨⟨b, o ++ ls.filterMap DiffLine.old, n ++ ls.filterMap DiffLine.new, []⟩,
        i || !ls.isEmpty, false⟩ := by
  induction ls generalizing o n i with
  | nil => simp
  | cons l ls ih =>
    rw [List.forall_mem_cons] at hls
    rw [List.map_cons, List.foldl_cons]
    cases l with
    | context line => cases hls.1
    | blank => cases hls.1
    | removed line =>
      have hnext := ih (o := o ++ [line]) (n := n) (i := true) hls.2
      simpa [HunkParse.line, stripPrefix, DiffLine.text, DiffLine.old, DiffLine.new,
        List.filterMap_cons] using hnext
    | added line =>
      have hnext := ih (o := o) (n := n ++ [line]) (i := true) hls.2
      simpa [HunkParse.line, stripPrefix, DiffLine.text, DiffLine.old, DiffLine.new,
        List.filterMap_cons] using hnext

theorem foldl_trail (hls : ∀ l ∈ ls, l.isContext) (hflag : (i || q) = true) :
    ((ls.map DiffLine.text).foldl HunkParse.line ⟨⟨b, o, n, a⟩, i, q⟩).hunk =
      ⟨b, o, n, a ++ ls.filterMap DiffLine.old⟩ := by
  induction ls generalizing a i q with
  | nil => simp
  | cons l ls ih =>
    rw [List.forall_mem_cons] at hls
    rw [List.map_cons, List.foldl_cons, line_context _ hls.1]
    have hnext := ih (a := a ++ [l.old.getD []]) (i := false) (q := true) hls.2 rfl
    cases l with
    | context line => simpa [HunkParse.context, DiffLine.old, hflag] using hnext
    | blank => simpa [HunkParse.context, DiffLine.old, hflag] using hnext
    | removed line => cases hls.1
    | added line => cases hls.1

theorem lines_eq_parts (h : DiffHunk) : h.lines = h.lead ++ (h.change ++ h.trail) := by
  rw [DiffHunk.lead, DiffHunk.change, DiffHunk.trail, List.takeWhile_append_dropWhile,
    List.takeWhile_append_dropWhile]

theorem lead_isContext (h : DiffHunk) : ∀ l ∈ h.lead, l.isContext :=
  fun _ hl => List.mem_takeWhile_imp hl

theorem change_isChange (h : DiffHunk) : ∀ l ∈ h.change, l.isContext = false := by
  intro l hl
  simpa using List.mem_takeWhile_imp hl

theorem trail_of_change (hchange : h.change = []) : h.trail = [] := by
  rw [DiffHunk.change, List.takeWhile_eq_nil_iff] at hchange
  rw [DiffHunk.trail]
  cases hrest : h.lines.dropWhile DiffLine.isContext with
  | nil => rfl
  | cons l ls =>
    have hl : l.isContext = true := by simpa [hrest] using hchange
    have hnot := List.dropWhile_get_zero_not DiffLine.isContext h.lines (by simp [hrest])
    simp only [hrest, List.get_eq_getElem, List.getElem_cons_zero] at hnot
    exact absurd hl hnot

/-- A hunk with one change is read as it was written. -/
theorem parseHunk_text (hone : h.OneChange) :
    parseHunk (h.lines.map DiffLine.text) = ⟨h.before, h.removed, h.added, h.after⟩ := by
  rw [parseHunk, lines_eq_parts, List.map_append, List.map_append, List.foldl_append,
    List.foldl_append, HunkParse.start, foldl_lead (lead_isContext h),
    foldl_change (change_isChange h)]
  cases hchange : h.change with
  | nil =>
    rw [trail_of_change hchange]
    simp [DiffHunk.before, DiffHunk.removed, DiffHunk.added, DiffHunk.after, hchange,
      trail_of_change hchange]
  | cons l ls =>
    rw [foldl_trail (List.all_eq_true.mp hone) rfl, ← hchange]
    rfl

theorem isHeader_heading (heading : Str) : isHeader ("@@".toList ++ heading) := by
  rw [isHeader, decide_eq_true_eq]
  apply prefix_trim
  · simp [trimStart, isWhitespace]
  · decide

theorem not_isHeader_cons (hc : isWhitespace c = false) (hne : c ≠ '@') :
    ¬ isHeader (c :: s) := by
  rw [isHeader, decide_eq_true_eq]
  intro hpre
  obtain ⟨t, ht⟩ := prefix_of_prefix_trim hc hpre
  cases ht
  exact hne rfl

theorem not_isMarker_cons (hc : isWhitespace c = false) (hne : c ≠ '*') :
    ¬ isMarker (c :: s) := by
  rw [isMarker, decide_eq_true_eq]
  intro hpre
  obtain ⟨t, ht⟩ := prefix_of_prefix_trim hc hpre
  cases ht
  exact hne rfl

/-- A line of a hunk reads as a header or a marker only where its context does. -/
theorem plain_text {l : DiffLine}
    (hplain : ∀ line, l = .context line → ¬ isHeader line ∧ ¬ isMarker line) :
    ¬ isHeader l.text ∧ ¬ isMarker l.text := by
  cases l with
  | context line =>
    have hline := hplain line rfl
    rw [isHeader, isMarker] at hline
    rw [DiffLine.text, isHeader, isMarker, trim_blank]
    exact hline
  | blank => decide
  | removed line =>
    exact ⟨not_isHeader_cons (by decide) (by decide), not_isMarker_cons (by decide) (by decide)⟩
  | added line =>
    exact ⟨not_isHeader_cons (by decide) (by decide), not_isMarker_cons (by decide) (by decide)⟩

theorem parseHunks_append {body rest : List Str} (hbody : ∀ l ∈ body, ¬ isHeader l) :
    parseHunks (body ++ rest) = parseHunks rest := by
  induction body with
  | nil => rfl
  | cons l body ih =>
    rw [List.forall_mem_cons] at hbody
    rw [List.cons_append, parseHunks, if_neg hbody.1, ih hbody.2]

theorem takeWhile_body {hunks : List DiffHunk} {body : List Str}
    (hbody : ∀ l ∈ body, ¬ isHeader l) :
    (body ++ hunks.flatMap DiffHunk.text).takeWhile (! isHeader ·) = body := by
  rw [List.takeWhile_append_of_pos (by simpa using hbody)]
  cases hunks with
  | nil => simp
  | cons h hunks =>
    rw [List.flatMap_cons, DiffHunk.text, List.cons_append,
      List.takeWhile_cons_of_neg (by simpa using isHeader_heading h.heading), List.append_nil]

theorem parseHunks_text {hunks : List DiffHunk}
    (hplain : ∀ h ∈ hunks, ∀ l ∈ h.lines, ¬ isHeader l.text) :
    parseHunks (hunks.flatMap DiffHunk.text) =
      hunks.map fun h => parseHunk (h.lines.map DiffLine.text) := by
  induction hunks with
  | nil => rfl
  | cons h hunks ih =>
    rw [List.forall_mem_cons] at hplain
    have hbody : ∀ l ∈ h.lines.map DiffLine.text, ¬ isHeader l := by
      simpa using hplain.1
    rw [List.flatMap_cons, DiffHunk.text, List.cons_append, parseHunks,
      if_pos (isHeader_heading h.heading), takeWhile_body hbody, parseHunks_append hbody,
      ih hplain.2, List.map_cons]

theorem parseOps_skip {block rest : List Str} :
    parseOps block.length (block ++ rest) = parseOps 0 rest := by
  induction block with
  | nil => rfl
  | cons l block ih => exact ih

/-- A line that the reading of lines leaves as it is. -/
def Unbroken (line : Str) : Prop := '\n' ∉ line ∧ line.getLast? ≠ some '\r'

theorem Unbroken.cons (hc : c ≠ '\n') (hr : c ≠ '\r') (h : Unbroken s) : Unbroken (c :: s) := by
  refine ⟨List.not_mem_cons_of_ne_of_not_mem (Ne.symm hc) h.1, ?_⟩
  cases s with
  | nil => simpa using hr
  | cons b s => rw [List.getLast?_cons_cons]; exact h.2

theorem unbroken_text {l : DiffLine} (hold : ∀ line ∈ l.old, Unbroken line)
    (hnew : ∀ line ∈ l.new, Unbroken line) : Unbroken l.text := by
  cases l with
  | context line => exact (hold line rfl).cons (by decide) (by decide)
  | blank => exact hold [] rfl
  | removed line => exact (hold line rfl).cons (by decide) (by decide)
  | added line => exact (hnew line rfl).cons (by decide) (by decide)

theorem unbroken_path {path : Str} (hpath : PlainPath path) : Unbroken path := by
  refine ⟨hpath.oneLine, fun hlast => ?_⟩
  have hend := (trim_eq hpath.trimmed).2
  obtain ⟨front, rfl⟩ : ∃ front, path = front ++ ['\r'] := by
    exact ⟨path.dropLast, (List.dropLast_append_getLast? _ hlast).symm⟩
  have hlen := congrArg List.length hend
  rw [trimEnd, List.reverse_append, List.reverse_singleton, List.singleton_append,
    List.dropWhile_cons_of_pos (by decide), List.length_reverse, List.length_append] at hlen
  have hle := (List.dropWhile_suffix (l := front.reverse) isWhitespace).length_le
  simp only [List.length_reverse, List.length_singleton] at hle hlen
  omega

theorem Unbroken.append (hs : '\n' ∉ s) (ht : Unbroken t) (hne : t ≠ []) : Unbroken (s ++ t) := by
  refine ⟨by simp [hs, ht.1], ?_⟩
  rw [List.getLast?_append_of_ne_nil _ hne]
  exact ht.2

section Patch

variable {d : Diff} {path : Str}

theorem unbroken_textLines (hpath : PlainPath path)
    (hbroken : ∀ line ∈ oldLinesOf d.hunks ++ newLinesOf d.hunks, Unbroken line) :
    ∀ line ∈ d.textLines path, Unbroken line := by
  rw [Diff.textLines, List.forall_mem_cons, List.forall_mem_cons, List.forall_mem_append]
  refine ⟨by unfold Unbroken; decide, ?_, ?_, by unfold Unbroken; decide⟩
  · exact Unbroken.append (by decide) (unbroken_path hpath) hpath.nonempty
  · intro line hline
    obtain ⟨h, hh, hline⟩ := List.mem_flatMap.mp hline
    rw [DiffHunk.text, List.mem_cons] at hline
    obtain rfl | hline := hline
    · constructor
      · simpa using h.oneLine.1
      · intro hlast
        have hmem := List.mem_of_getLast? hlast
        exact h.oneLine.2 (by simpa using hmem)
    · obtain ⟨l, hl, rfl⟩ := List.mem_map.mp hline
      apply unbroken_text
      · intro x hx
        apply hbroken x (List.mem_append_left _ _)
        exact List.mem_flatMap.mpr ⟨h, hh, List.mem_append_left _
          (List.mem_filterMap.mpr ⟨l, hl, hx⟩)⟩
      · intro x hx
        apply hbroken x (List.mem_append_right _ _)
        exact List.mem_flatMap.mpr ⟨h, hh, List.mem_append_left _
          (List.mem_filterMap.mpr ⟨l, hl, hx⟩)⟩

theorem not_isMarker_hunks (hcontexts : ∀ h ∈ d.hunks, ∀ line, .context line ∈ h.lines →
    ¬ isHeader line ∧ ¬ isMarker line) :
    ∀ line ∈ d.hunks.flatMap DiffHunk.text, ¬ isMarker line := by
  intro line hline
  obtain ⟨h, hh, hline⟩ := List.mem_flatMap.mp hline
  rw [DiffHunk.text, List.mem_cons] at hline
  obtain rfl | hline := hline
  · exact not_isMarker_cons (by decide) (by decide)
  · obtain ⟨l, hl, rfl⟩ := List.mem_map.mp hline
    exact (plain_text fun x hx => hcontexts h hh x (hx ▸ hl)).2

theorem trim_update (hpath : PlainPath path) :
    trim ("*** Update File: ".toList ++ path) = "*** Update File: ".toList ++ path := by
  have hstart : trimStart ("*** Update File: ".toList ++ path) =
      "*** Update File: ".toList ++ path := by
    simp [trimStart, isWhitespace]
  rw [trim, hstart, trimEnd_append (trim_eq hpath.trimmed).2 hpath.nonempty]

theorem parseOps_update (hpath : PlainPath path)
    (hmarkers : ∀ line ∈ d.hunks.flatMap DiffHunk.text, ¬ isMarker line)
    (hhunks : parseHunks (d.hunks.flatMap DiffHunk.text) ≠ []) :
    parseOps 0 (("*** Update File: ".toList ++ path) :: d.hunks.flatMap DiffHunk.text) =
      .ok [.updateFile path none (parseHunks (d.hunks.flatMap DiffHunk.text))] := by
  have hblock : (d.hunks.flatMap DiffHunk.text).takeWhile (! isMarker ·) =
      d.hunks.flatMap DiffHunk.text := by
    apply List.takeWhile_eq_self_iff.mpr
    simpa using hmarkers
  have hadd : stripPrefix "*** Add File:".toList ("*** Update File: ".toList ++ path) = none := by
    rw [stripPrefix, if_neg]
    rintro ⟨t, ht⟩
    rw [String.toList_ofList, String.toList_ofList] at ht
    cases ht
  have hupdate : stripPrefix "*** Update File:".toList ("*** Update File: ".toList ++ path) =
      some (' ' :: path) := by
    rw [String.toList_ofList, String.toList_ofList, stripPrefix, if_pos ⟨' ' :: path, rfl⟩]
    rfl
  have hrest := @parseOps_skip (d.hunks.flatMap DiffHunk.text) []
  rw [List.append_nil] at hrest
  rw [parseOps]
  simp only [trim_update hpath, hadd, hupdate, trim_blank, hpath.trimmed, hpath.stays, hblock,
    if_neg hpath.nonempty, if_neg hhunks, hrest]
  rfl

/-- The patch is read as one update with the hunks of the difference. -/
theorem parsePatch_render (happ : d.Applies path)
    (hbroken : ∀ line ∈ oldLinesOf d.hunks ++ newLinesOf d.hunks, Unbroken line) :
    parsePatch (d.render path) =
      .ok [.updateFile path none (d.hunks.map fun h => ⟨h.before, h.removed, h.added, h.after⟩)] := by
  have hlines : lines (d.render path) = d.textLines path :=
    lines_terminated (unbroken_textLines happ.path hbroken)
  have hbegin : (d.textLines path).findIdx? (fun l => trim l = "*** Begin Patch".toList) =
      some 0 := by
    rw [Diff.textLines, List.findIdx?_cons, if_pos (by decide)]
  have hend : (d.textLines path).reverse.findIdx? (fun l => trim l = "*** End Patch".toList) =
      some 0 := by
    rw [Diff.textLines, ← List.cons_append, ← List.cons_append, List.reverse_append,
      List.reverse_singleton, List.singleton_append, List.findIdx?_cons, if_pos (by decide)]
  have hbody : ((d.textLines path).take ((d.textLines path).length - 1 - 0)).drop (0 + 1) =
      ("*** Update File: ".toList ++ path) :: d.hunks.flatMap DiffHunk.text := by
    simp [Diff.textLines]
  have hhunks : parseHunks (d.hunks.flatMap DiffHunk.text) =
      d.hunks.map fun h => ⟨h.before, h.removed, h.added, h.after⟩ := by
    rw [parseHunks_text fun h hh l hl =>
      (plain_text fun x hx => happ.contexts h hh x (hx ▸ hl)).1]
    exact List.map_congr_left fun h hh => parseHunk_text (happ.changes h hh)
  have hops := parseOps_update happ.path (not_isMarker_hunks happ.contexts)
    (by rw [hhunks]; simpa using d.shown)
  have hlong : ¬ (d.textLines path).length - 1 - 0 ≤ 0 := by simp [Diff.textLines]
  rw [parsePatch]
  simp only [hlines, hbegin, hend, if_neg hlong, hbody, hops, hhunks]
  simp

end Patch

end Reading

section Placing

variable {done rest anchor : List Str} {h : DiffHunk}

theorem not_shorter : ¬ (done ++ (anchor ++ rest)).length < anchor.length := by
  simp only [List.length_append]
  omega

theorem findAnchor_first (hne : anchor ≠ [])
    (hnot : ∀ start < done.length, ¬ anchor <+: (done ++ (anchor ++ rest)).drop start) :
    findAnchor (done ++ (anchor ++ rest)) anchor = some done.length := by
  rw [findAnchor, findAnchorBy, if_neg hne, if_neg not_shorter]
  apply List.find?_range_eq_some.mpr
  refine ⟨?_, ?_, fun start hstart => ?_⟩
  · simp
  · simp only [List.mem_range, List.length_append]
    omega
  · simpa using hnot start hstart

/-- An anchor that is put in for itself changes nothing, wherever it is found. -/
theorem findAnchor_keeps (done rest : List Str) (hne : anchor ≠ []) : ∃ pos,
    findAnchor (done ++ (anchor ++ rest)) anchor = some pos ∧
      (done ++ (anchor ++ rest)).take pos ++ anchor ++
        (done ++ (anchor ++ rest)).drop (pos + anchor.length) = done ++ (anchor ++ rest) := by
  have hsome : (findAnchor (done ++ (anchor ++ rest)) anchor).isSome := by
    rw [findAnchor, findAnchorBy, if_neg hne, if_neg not_shorter,
      List.find?_isSome]
    refine ⟨done.length, ?_, by simp⟩
    simp only [List.mem_range, List.length_append]
    omega
  obtain ⟨pos, hpos⟩ := Option.isSome_iff_exists.mp hsome
  refine ⟨pos, hpos, ?_⟩
  rw [findAnchor, findAnchorBy, if_neg hne, if_neg not_shorter] at hpos
  have hpre : anchor <+: (done ++ (anchor ++ rest)).drop pos := by
    simpa using List.find?_some hpos
  obtain ⟨t, ht⟩ := hpre
  have htail : (done ++ (anchor ++ rest)).drop (pos + anchor.length) = t := by
    rw [← List.drop_drop, ← ht, List.drop_left]
  rw [htail, List.append_assoc, ht, List.take_append_drop]

theorem applyHunk_lands (hland : Lands done h rest) :
    applyHunk (done ++ (h.before ++ h.removed ++ (h.after ++ rest)))
        ⟨h.before, h.removed, h.added, h.after⟩ =
      some (done ++ (h.before ++ h.added ++ (h.after ++ rest))) := by
  by_cases hanchor : h.before ++ h.removed = []
  · have hremoved : h.removed = [] := (List.append_eq_nil_iff.mp hanchor).2
    have hbefore : h.before = [] := (List.append_eq_nil_iff.mp hanchor).1
    rw [applyHunk, if_pos ⟨hanchor, hremoved⟩]
    obtain hsame | ⟨hend, -⟩ := hland
    · rw [← hsame, hremoved, hbefore]
      simp
    · rw [hremoved, hbefore, hend hanchor]
      simp
  · rw [applyHunk, if_neg fun hboth => hanchor hboth.1, ← List.length_append]
    obtain hsame | ⟨-, hfirst⟩ := hland
    · obtain ⟨pos, hpos, hkeeps⟩ := findAnchor_keeps done (h.after ++ rest) hanchor
      rw [hpos, ← hsame]
      simpa using hkeeps
    · rw [findAnchor_first hanchor (hfirst hanchor), Option.some_or]
      simp only [Option.some.injEq]
      rw [List.take_left, ← List.drop_drop, List.drop_left, List.drop_left]
      simp

theorem filterMap_old (h : DiffHunk) :
    h.lines.filterMap DiffLine.old = h.before ++ h.removed ++ h.after := by
  rw [lines_eq_parts, List.filterMap_append, List.filterMap_append, List.append_assoc]
  rfl

theorem filterMap_new_of_context {ls : List DiffLine} (hls : ∀ l ∈ ls, l.isContext) :
    ls.filterMap DiffLine.new = ls.filterMap DiffLine.old := by
  apply List.filterMap_congr
  intro l hl
  have hcontext := hls l hl
  cases l with
  | context line => rfl
  | blank => rfl
  | removed line => cases hcontext
  | added line => cases hcontext

theorem filterMap_new (hone : h.OneChange) :
    h.lines.filterMap DiffLine.new = h.before ++ h.added ++ h.after := by
  rw [lines_eq_parts, List.filterMap_append, List.filterMap_append, List.append_assoc,
    filterMap_new_of_context (lead_isContext h),
    filterMap_new_of_context (List.all_eq_true.mp hone)]
  rfl

/-- Hunk by hunk, the lines of the old file become the lines of the new one. -/
theorem applyHunksFrom_lands {hunks : List DiffHunk} (hunkIdx : Nat)
    (hone : ∀ h ∈ hunks, h.OneChange) (hland : AllLand done hunks) :
    applyHunksFrom hunkIdx (done ++ oldLinesOf hunks)
        (hunks.map fun h => ⟨h.before, h.removed, h.added, h.after⟩) =
      .ok (done ++ newLinesOf hunks) := by
  induction hunks generalizing done hunkIdx with
  | nil => rfl
  | cons h hunks ih =>
    rw [List.forall_mem_cons] at hone
    have hold : oldLinesOf (h :: hunks) =
        h.before ++ h.removed ++ (h.after ++ (h.unchanged ++ oldLinesOf hunks)) := by
      rw [oldLinesOf, List.flatMap_cons, filterMap_old]
      simp [oldLinesOf]
    have hnew : done ++ newLinesOf (h :: hunks) =
        done ++ (h.before ++ h.added ++ (h.after ++ h.unchanged)) ++ newLinesOf hunks := by
      rw [newLinesOf, List.flatMap_cons, filterMap_new hone.1]
      simp [newLinesOf]
    have hnext : done ++ (h.before ++ h.added ++ (h.after ++ (h.unchanged ++ oldLinesOf hunks))) =
        done ++ (h.before ++ h.added ++ (h.after ++ h.unchanged)) ++ oldLinesOf hunks := by
      simp
    rw [hold, List.map_cons, applyHunksFrom, applyHunk_lands hland.1]
    simp only [hnext]
    rw [ih _ hone.2 hland.2, hnew]

end Placing

section Ending

/-- What the applier makes of the lines of the new file is the new file exactly when the
texts end alike. -/
theorem joined_eq_iff (old new : Str) :
    (if old.getLast? = some '\n' ∧ (['\n'].intercalate (fileLines new)).getLast? ≠ some '\n' then
      ['\n'].intercalate (fileLines new) ++ ['\n']
      else ['\n'].intercalate (fileLines new)) = new ↔ EndsAlike old new := by
  have hnew := intercalate_fileLines new
  generalize ['\n'].intercalate (fileLines new) = joined at hnew ⊢
  by_cases hends : new.getLast? = some '\n'
  · rw [if_pos hends] at hnew
    have htwo : ['\n', '\n'] <:+ new ↔ joined.getLast? = some '\n' := by
      rw [← hnew, List.getLast?_eq_some_iff]
      constructor
      · rintro ⟨t, ht⟩
        have hsplit : t ++ ['\n'] ++ ['\n'] = joined ++ ['\n'] := by
          rw [← ht]
          simp
        exact ⟨t, (List.append_cancel_right hsplit).symm⟩
      · rintro ⟨t, rfl⟩
        exact ⟨t, by simp⟩
    rw [EndsAlike, htwo, ← hnew]
    simp only [List.getLast?_concat, true_and, not_true_eq_false, imp_false, ne_eq, not_not]
    split
    · rename_i hboth
      simp [hboth.1, hboth.2]
    · rename_i hnot
      rw [not_and, not_not] at hnot
      have hlonger : joined ≠ joined ++ ['\n'] := by simp
      constructor
      · intro heq
        exact absurd heq hlonger
      · rintro ⟨hlast, hold⟩
        exact absurd (hnot hold) (hlast hold)
  · rw [if_neg hends, List.append_nil] at hnew
    subst hnew
    simp [EndsAlike, hends]

end Ending

section RoundTrip

variable {Path : Type} [DecidableEq Path] {host : Host Path} {disk : Disk Path} {target : Path}
  {path : Str} {d : Diff} {old new : Str}

theorem applyHunks_applies (hbetween : d.Between old new) (happ : d.Applies path) :
    applyHunks old (d.hunks.map fun h => ⟨h.before, h.removed, h.added, h.after⟩) =
      .ok (if old.getLast? = some '\n' ∧
          (['\n'].intercalate (fileLines new)).getLast? ≠ some '\n' then
        ['\n'].intercalate (fileLines new) ++ ['\n']
        else ['\n'].intercalate (fileLines new)) := by
  have hlines : lines old = d.unchanged ++ oldLinesOf d.hunks := by
    rw [lines_eq, hbetween.1]
    rw [hbetween.1]
    intro line hline
    apply happ.breaks
    rw [← List.append_assoc]
    exact List.mem_append_left _ hline
  rw [applyHunks, hlines, applyHunksFrom_lands 0 happ.changes happ.anchors, ← hbetween.2]
  rfl

theorem applyPatch_update (hresolve : host.resolve disk path = .ok target)
    (hread : disk target = some old) (hwrite : host.writeError target = none)
    {hunks : List Hunk} {patched : Str} (happly : applyHunks old hunks = .ok patched) :
    applyPatch host [.updateFile path none hunks] disk =
      (Function.update disk target (some patched), ⟨0, 1, 0, 0, []⟩) := by
  rw [applyPatch, List.foldl_cons, List.foldl_nil, applyOp]
  simp [hresolve, hread, happly, writeUpdate, hwrite]

theorem unbroken_lines (hbetween : d.Between old new) (happ : d.Applies path) :
    ∀ line ∈ oldLinesOf d.hunks ++ newLinesOf d.hunks, Unbroken line := by
  intro line hline
  refine ⟨?_, happ.breaks line (List.mem_append_right _ hline)⟩
  obtain hline | hline := List.mem_append.mp hline
  · have hclean : ∀ l ∈ fileLinesFrom [] old, '\n' ∉ l := newline_notMem (by simp)
    apply hclean
    rw [← fileLines, hbetween.1]
    exact List.mem_append_right _ hline
  · have hclean : ∀ l ∈ fileLinesFrom [] new, '\n' ∉ l := newline_notMem (by simp)
    apply hclean
    rw [← fileLines, hbetween.2]
    exact List.mem_append_right _ hline

/-- A workspace with every file in place under its own path. -/
def openHost : Host Str :=
  ⟨fun _ path => .ok path, fun _ => none, fun _ => none, fun _ => [], fun _ => none,
    fun _ => none⟩

def oneFile (text : Str) : Disk Str := fun path => if path = "f".toList then some text else none

/-- The second line of a file is replaced. -/
def secondLine : Diff :=
  ⟨[], [⟨" fn @@".toList, [.context "a".toList, .removed "b".toList, .added "c".toList], [],
    by decide⟩], by simp⟩

/-- The third line of four is replaced, which reads like the first. -/
def thirdLine : Diff :=
  ⟨["a".toList, "x".toList], [⟨[], [.removed "a".toList, .added "b".toList, .context "y".toList],
    [], by decide⟩], by simp⟩

end RoundTrip

end Clawreform.Runtime.ApplyPatch
