import Clawreform.Lib.Find

namespace Clawreform.Kernel.MemoryViews

open Clawreform.Lib.Text Clawreform.Lib.Find Clawreform.Lib.Infix

section Code

def autoSectionStart : Str := "<!-- clawreform:auto:start -->".toList

def autoSectionEnd : Str := "<!-- clawreform:auto:end -->".toList

structure NoteSnapshot where
  stem : Str
  title : Str
  preview : Str
  deriving DecidableEq

def truncateCharsPreservingBoundary (text : Str) (maxChars : Nat) : Str :=
  if maxChars < text.length then text.take maxChars ++ "...".toList else text

/-- The last of at most three parts. -/
def stripFrontmatter (content : Str) : Str :=
  let fence := "---\n".toList
  match stripPrefix fence content with
  | none => content
  | some rest =>
    match find fence rest with
    | none => []
    | some pos => rest.drop (pos + fence.length)

/-- The title and the preview that the lines give, when nothing of them is known yet. -/
def scanNote (title : Str) : List Str → Str × Str
  | [] => (title, [])
  | line :: rest =>
    let trimmed := trim line
    if trimmed = [] then scanNote title rest
    else if title = [] ∧ ['#'] <+: trimmed then
      scanNote (trim (trimmed.dropWhile (· = '#'))) rest
    else if ¬ ['#'] <+: trimmed ∧ ¬ "<!--".toList <+: trimmed then
      (title, truncateCharsPreservingBoundary trimmed 160)
    else scanNote title rest

def readNoteSnapshot (stem content : Str) : NoteSnapshot :=
  let (title, preview) := scanNote [] (lines (stripFrontmatter content))
  { stem := stem
    title := if title = [] then replaceText stem ['-'] [' '] else title
    preview := if preview = [] then "No preview available.".toList else preview }

/-- What the overview shows of a claim of the collective: its statement and its confidence with
two digits. -/
structure CollectiveClaim where
  statement : Str
  confidence : Str
  overviewReady : Bool
  deriving DecidableEq

def movementLine (label : String) : List NoteSnapshot → Str
  | [] => ("- " ++ label ++ ": none yet").toList
  | item :: _ => ("- " ++ label ++ ": ").toList ++ item.title ++ " — ".toList ++ item.preview

def claimLine (claim : CollectiveClaim) : Str :=
  "- ".toList ++ truncateCharsPreservingBoundary claim.statement 180 ++ " _(confidence ".toList ++
    claim.confidence ++ ")_".toList

def buildOverviewAutoSnapshot (now : Str) (dispatches summaries : List NoteSnapshot)
    (claims : List CollectiveClaim) : Str :=
  let overviewTruths := (claims.filter (·.overviewReady)).take 3
  "\n".toList.intercalate
    (["_Last updated: ".toList ++ now ++ "_".toList,
      "- Recent dispatches captured: ".toList ++ showNat dispatches.length,
      "- Recent session summaries captured: ".toList ++ showNat summaries.length,
      movementLine "Latest movement" dispatches,
      movementLine "Current active arc" summaries] ++
    (if overviewTruths = [] then [] else
      "\n### Collective Direction".toList :: overviewTruths.map claimLine))

/-- What the file holds afterwards. -/
def updateManagedSection (existing autoBody : Str) : Str :=
  match find autoSectionStart existing with
  | none => existing
  | some start =>
    match find autoSectionEnd existing with
    | none => existing
    | some stop =>
      existing.take (start + autoSectionStart.length) ++ "\n".toList ++ autoBody ++
        "\n".toList ++ existing.drop stop

end Code

section Purpose

/-- What stands in front of the first start marker and behind the first end marker is still
there. -/
def Preserves (existing updated : Str) : Prop :=
  ∀ start stop, find autoSectionStart existing = some start →
    find autoSectionEnd existing = some stop →
    ∃ middle, updated = existing.take start ++ autoSectionStart ++ middle ++ autoSectionEnd ++
      existing.drop (stop + autoSectionEnd.length)

/-- A second update leaves nothing of the first one. -/
def Managed (existing b₁ b₂ : Str) : Prop :=
  updateManagedSection (updateManagedSection existing b₁) b₂ = updateManagedSection existing b₂ ∧
    Preserves existing (updateManagedSection existing b₂)

end Purpose

section Sections

variable {existing body b₁ b₂ u v x w : Str}

/-- Two patterns that start with a bracket and hold no other do not overlap. -/
theorem no_overlap {m m' : Str} (hm : '<' ∉ m.tail) (hm' : m'.head? = some '<')
    (h : u ++ m ++ v = x ++ m' ++ w) (hlt : u.length < x.length) : ∃ y, x = u ++ m ++ y := by
  rw [List.append_assoc, List.append_assoc, List.append_eq_append_iff] at h
  obtain ⟨x', rfl, h⟩ | ⟨u', rfl, -⟩ := h
  · rw [List.append_eq_append_iff] at h
    obtain ⟨y, rfl, -⟩ | ⟨c, rfl, h⟩ := h
    · exact ⟨y, by rw [List.append_assoc]⟩
    · cases c with
      | nil => exact ⟨[], by simp⟩
      | cons d c =>
        obtain ⟨d', m', rfl⟩ : ∃ d' m'', m' = d' :: m'' := by
          cases m' with
          | nil => cases hm'
          | cons d' m' => exact ⟨d', m', rfl⟩
        obtain rfl : d' = '<' := by simpa using hm'
        obtain rfl : '<' = d := (List.cons_eq_cons.mp h).1
        cases x' with
        | nil => simp at hlt
        | cons c' x' => simp at hm
  · rw [List.length_append] at hlt
    omega

/-- What there is to know about the characters of the two markers. -/
theorem markers :
    (autoSectionStart.head? = some '<' ∧ '<' ∉ autoSectionStart.tail ∧
        21 < autoSectionStart.length) ∧
      (autoSectionEnd.head? = some '<' ∧ '<' ∉ autoSectionEnd.tail ∧
        21 < autoSectionEnd.length ∧ '\n' ∉ autoSectionEnd) ∧
      autoSectionStart[21]? ≠ autoSectionEnd[21]? := by
  delta autoSectionStart autoSectionEnd
  rw [String.toList_ofList, String.toList_ofList]
  decide

theorem start_ne_nil : autoSectionStart ≠ [] :=
  List.ne_nil_of_length_pos (Nat.zero_lt_of_lt markers.1.2.2)

theorem end_ne_nil : autoSectionEnd ≠ [] :=
  List.ne_nil_of_length_pos (Nat.zero_lt_of_lt markers.2.1.2.2.1)

/-- The section with a new body: `u` stands in front of the start marker, and `w` behind the end
marker. -/
def rewritten (u body w : Str) : Str :=
  u ++ autoSectionStart ++ "\n".toList ++ body ++ "\n".toList ++ autoSectionEnd ++ w

theorem updateManagedSection_eq (hu : u ++ autoSectionStart ++ v = existing)
    (hx : x ++ autoSectionEnd ++ w = existing)
    (hstart : find autoSectionStart existing = some u.length)
    (hend : find autoSectionEnd existing = some x.length) :
    updateManagedSection existing body = rewritten u body w := by
  have htake : existing.take (u.length + autoSectionStart.length) = u ++ autoSectionStart := by
    rw [← hu, ← List.length_append, List.take_left]
  have hdrop : existing.drop x.length = autoSectionEnd ++ w := by
    rw [← hx, List.append_assoc, List.drop_left]
  simp only [updateManagedSection, hstart, hend, htake, hdrop, rewritten, List.append_assoc]

/-- The start marker is found again where it was. -/
theorem find_start_rewritten (hstart : find autoSectionStart (u ++ autoSectionStart ++ v) =
    some u.length) : find autoSectionStart (rewritten u body w) = some u.length := by
  rw [find_append_iff start_ne_nil] at hstart
  rw [rewritten, List.append_assoc, List.append_assoc, List.append_assoc, List.append_assoc,
    find_append_iff start_ne_nil]
  exact hstart

/-- The end marker is found where it was put unless there is one before. -/
theorem find_end_rewritten_iff : find autoSectionEnd (rewritten u body w) =
      some (u ++ autoSectionStart ++ "\n".toList ++ body ++ "\n".toList).length ↔
    ¬ autoSectionEnd <:+: u ++ autoSectionStart ∧ ¬ autoSectionEnd <:+: body := by
  obtain ⟨-, -, hlong, hline⟩ := markers.2.1
  have hshort : ¬ autoSectionEnd <:+: autoSectionEnd.dropLast :=
    not_infix_of_length (by rw [List.length_dropLast]; omega)
  have hlines : u ++ autoSectionStart ++ "\n".toList ++ body ++ "\n".toList ++
        autoSectionEnd.dropLast =
      (u ++ autoSectionStart) ++ '\n' :: (body ++ '\n' :: autoSectionEnd.dropLast) := by
    simp
  rw [rewritten, find_append_iff end_ne_nil, hlines, infix_cons_iff end_ne_nil hline,
    infix_cons_iff end_ne_nil hline]
  simp only [hshort, or_false, not_or]

/-- The start marker is in front of the end marker when no end marker is in front of its end. -/
theorem start_lt_end_iff (h : u ++ autoSectionStart ++ v = x ++ autoSectionEnd ++ w)
    (hend : ¬ autoSectionEnd <:+: x ++ autoSectionEnd.dropLast) :
    u.length < x.length ↔ ¬ autoSectionEnd <:+: u ++ autoSectionStart := by
  obtain ⟨⟨hopen, hopens, hlong⟩, ⟨hopen', hopens', hlong', -⟩, hword'⟩ := markers
  constructor
  · intro hlt
    obtain ⟨y, rfl⟩ := no_overlap hopens hopen' h hlt
    exact fun hinf => hend (hinf.trans ⟨[], y ++ autoSectionEnd.dropLast, by simp⟩)
  · intro hinf
    by_contra hle
    obtain hlt | heq := Nat.lt_or_eq_of_le (Nat.not_lt.mp hle)
    · obtain ⟨y, rfl⟩ := no_overlap hopens' hopen h.symm hlt
      exact hinf ⟨x, y ++ autoSectionStart, by simp⟩
    · rw [List.append_assoc, List.append_assoc] at h
      obtain ⟨-, hmarkers⟩ := List.append_inj h heq.symm
      have hword := congrArg (fun s : Str => s[21]?) hmarkers
      rw [List.getElem?_append_left hlong, List.getElem?_append_left hlong'] at hword
      exact hword' hword

/-- A section is managed exactly when its start marker is in front of its end marker and the first
body holds no end marker. -/
theorem managed_iff {existing : Str} {start stop : Nat} (b₁ b₂ : Str)
    (hstart : find autoSectionStart existing = some start)
    (hstop : find autoSectionEnd existing = some stop) :
    Managed existing b₁ b₂ ↔ start < stop ∧ ¬ autoSectionEnd <:+: b₁ := by
  obtain ⟨u, v, hu, rfl, -⟩ := exists_of_find start_ne_nil hstart
  obtain ⟨x, w, hx, rfl, hfirst⟩ := exists_of_find end_ne_nil hstop
  have hupdate : ∀ body, updateManagedSection existing body = rewritten u body w :=
    fun body => updateManagedSection_eq hu.symm hx.symm hstart hstop
  have hstart' : find autoSectionStart (rewritten u b₁ w) = some u.length := by
    subst hu
    exact find_start_rewritten hstart
  have hpreserves : Preserves existing (rewritten u b₂ w) := by
    intro start stop hs he
    cases hs.symm.trans hstart
    cases he.symm.trans hstop
    refine ⟨"\n".toList ++ b₂ ++ "\n".toList, ?_⟩
    have htake : existing.take u.length = u := by rw [hu, List.append_assoc, List.take_left]
    have hdrop : existing.drop (x.length + autoSectionEnd.length) = w := by
      rw [hx, ← List.length_append, List.drop_left]
    rw [htake, hdrop, rewritten]
    simp only [List.append_assoc]
  rw [Managed, hupdate b₁, hupdate b₂, and_iff_left hpreserves,
    start_lt_end_iff (hu.symm.trans hx) hfirst, ← find_end_rewritten_iff (w := w)]
  cases hend : find autoSectionEnd (rewritten u b₁ w) with
  | none =>
    rw [find_eq_none_iff] at hend
    exact absurd ⟨u ++ autoSectionStart ++ "\n".toList ++ b₁ ++ "\n".toList, w, rfl⟩ hend
  | some pos =>
    obtain ⟨x', w', hx', rfl, -⟩ := exists_of_find end_ne_nil hend
    have hbehind : u ++ autoSectionStart ++
        ("\n".toList ++ b₁ ++ "\n".toList ++ autoSectionEnd ++ w) = rewritten u b₁ w := by
      simp only [rewritten, List.append_assoc]
    have hsecond : updateManagedSection (rewritten u b₁ w) b₂ = rewritten u b₂ w' :=
      updateManagedSection_eq hbehind hx'.symm hstart' hend
    have hlen := congrArg List.length hx'
    simp only [rewritten, List.length_append] at hlen
    rw [hsecond, Option.some.injEq]
    constructor
    · intro heq
      have hlen' := congrArg List.length heq
      simp only [rewritten, List.length_append] at hlen'
      simp only [List.length_append]
      omega
    · intro hpos
      have hsame : (u ++ autoSectionStart ++ "\n".toList ++ b₁ ++ "\n".toList) ++
          (autoSectionEnd ++ w) = x' ++ (autoSectionEnd ++ w') := by
        rw [← List.append_assoc, ← List.append_assoc x']
        exact hx'
      have hw := (List.append_inj hsame hpos.symm).2
      rw [List.append_cancel_left hw]

def overview : Str :=
  "# Overview\n<!-- clawreform:auto:start -->\nnone\n<!-- clawreform:auto:end -->\nnotes\n".toList

theorem find_markers_overview :
    find autoSectionStart overview = some 11 ∧ find autoSectionEnd overview = some 47 := by
  delta autoSectionStart autoSectionEnd overview
  repeat rw [String.toList_ofList]
  decide +kernel

theorem managed_iff_overview :
    Managed overview "one".toList "two".toList ↔
      11 < 47 ∧ ¬ autoSectionEnd <:+: "one".toList :=
  managed_iff "one".toList "two".toList find_markers_overview.1 find_markers_overview.2

/-- A dispatch whose first line names the end marker. -/
def quotingNote : Str := "# Report\nClosed <!-- clawreform:auto:end --> by hand.\n".toList

def quotingBody : Str :=
  buildOverviewAutoSnapshot "today".toList [readNoteSnapshot "report".toList quotingNote] [] []

/-- The snapshot of a note can end the section it is put into. -/
theorem quotingBody_not_managed :
    ¬ ∀ existing b₁ b₂ : Str, (find autoSectionStart existing).isSome →
      (find autoSectionEnd existing).isSome → Managed existing b₁ b₂ := by
  intro h
  obtain ⟨hstart, hend⟩ := find_markers_overview
  have hlen := congrArg List.length (h overview quotingBody "two".toList
    (Option.isSome_of_eq_some hstart) (Option.isSome_of_eq_some hend)).1
  revert hlen
  delta quotingBody quotingNote overview buildOverviewAutoSnapshot
  repeat rw [String.toList_ofList]
  decide +kernel

end Sections

end Clawreform.Kernel.MemoryViews
