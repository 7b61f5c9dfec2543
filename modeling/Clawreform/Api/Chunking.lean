import Clawreform.Lib.Run
import Clawreform.Lib.Slices

namespace Clawreform.Api.Chunking

open Clawreform.Lib.Text Clawreform.Lib.Run Clawreform.Lib.Slices

section Texts

/-- The lines of a text, each with its newline. -/
def splitInclusive : Str → List Str
  | [] => []
  | c :: s =>
    if c = '\n' then [c] :: splitInclusive s
    else
      match splitInclusive s with
      | [] => [[c]]
      | line :: lines => (c :: line) :: lines

/-- The byte offset of the last occurrence. -/
def rfind (pat : Str) : Str → Option Nat
  | [] => if pat = [] then some 0 else none
  | c :: s =>
    match rfind pat s with
    | some pos => some (c.utf8Size + pos)
    | none => if pat <+: c :: s then some 0 else none

def trimStartMatches (d : Char) (s : Str) : Str := s.dropWhile (· = d)

theorem flatten_splitInclusive (s : Str) : (splitInclusive s).flatten = s := by
  induction s with
  | nil => rfl
  | cons c s ih =>
    rw [splitInclusive]
    by_cases hc : c = '\n'
    · rw [if_pos hc, List.flatten_cons, ih, List.singleton_append]
    · rw [if_neg hc]
      cases hs : splitInclusive s with
      | nil => rw [← ih, hs]; rfl
      | cons line lines => rw [← ih, hs]; rfl

end Texts

section Code

structure StreamChunker where
  buffer : Str
  inCodeFence : Bool
  fenceMarker : Str
  minChunkChars : Nat
  maxChunkChars : Nat
  deriving DecidableEq

def new (minChunkChars maxChunkChars : Nat) : StreamChunker :=
  ⟨[], false, [], minChunkChars, maxChunkChars⟩

def fence : Str := ['\x60', '\x60', '\x60']

def pushLine (c : StreamChunker) (line : Str) : StreamChunker :=
  let c := { c with buffer := c.buffer ++ line }
  let trimmed := trim line
  if fence <+: trimmed then
    if c.inCodeFence then
      if trimmed = fence ∨ c.fenceMarker <+: trimmed then
        { c with inCodeFence := false, fenceMarker := [] }
      else c
    else { c with inCodeFence := true, fenceMarker := fence }
  else c

def push (c : StreamChunker) (text : Str) : StreamChunker := (splitInclusive text).foldl pushLine c

/-- Slicing inside a character panics. -/
def findLastInRange (text pat : Str) (start stop : Nat) : Option (Option Nat) :=
  if min stop (byteLen text) < start then none
  else (slice start (min stop (byteLen text)) text).map fun p => (rfind pat p.2).map (start + ·)

/-- Paragraph break, newline, sentence endings. -/
def patterns : List Str := [['\n', '\n'], ['\n'], ['.', ' '], ['!', ' '], ['?', ' ']]

def firstBreak (text : Str) (start stop : Nat) : List Str → Option (Option Nat)
  | [] => some none
  | pat :: pats => do
    match ← findLastInRange text pat start stop with
    | some pos => some (some (pos + byteLen pat))
    | none => firstBreak text start stop pats

def cutAt (c : StreamChunker) (n : Nat) : Option (Option Str × StreamChunker) :=
  (splitBytes n c.buffer).map fun p => (some p.1, { c with buffer := p.2 })

def closing : Str := '\n' :: fence ++ ['\n']

/-- A chunk, or nothing yet; or the call panics. -/
def tryFlush (c : StreamChunker) : Option (Option Str × StreamChunker) :=
  if byteLen c.buffer < c.minChunkChars then some (none, c)
  else if c.inCodeFence ∧ byteLen c.buffer < c.maxChunkChars then some (none, c)
  else if c.inCodeFence then
    some (some (c.buffer ++ closing),
      { c with buffer := fence ++ trimStartMatches '\x60' c.fenceMarker ++ ['\n'] })
  else do
    let stop := min (byteLen c.buffer) c.maxChunkChars
    match ← firstBreak c.buffer c.minChunkChars stop patterns with
    | some n => cutAt c n
    | none => if c.maxChunkChars ≤ byteLen c.buffer then cutAt c c.maxChunkChars else some (none, c)

def flushRemaining (c : StreamChunker) : Option Str :=
  if c.buffer = [] then none else some c.buffer

end Code

section Runs

inductive Call where
  | push (text : Str)
  | tryFlush
  deriving DecidableEq

/-- A chunk, whether it was broken off inside a fence, and how many bytes of the text are out
then. -/
structure Chunk where
  text : Str
  forced : Bool
  boundary : Nat
  deriving DecidableEq

/-- The chunker, how many bytes of the text it has put out, and how many bytes of its buffer belong
to a fence line that it added. -/
structure Progress where
  chunker : StreamChunker
  out : Nat
  added : Nat
  deriving DecidableEq

def reopening : Str := fence ++ ['\n']

/-- How many bytes of the text are out when `n` bytes of the buffer are. -/
def Progress.outAfter (p : Progress) (n : Nat) : Nat := p.out + (n - p.added)

/-- A call and its chunk, or nothing where it panics. -/
def step (p : Progress) : Call → Progress × List (Option Chunk)
  | .push text => ({ p with chunker := push p.chunker text }, [])
  | .tryFlush =>
    match tryFlush p.chunker with
    | none => (p, [none])
    | some (none, _) => (p, [])
    | some (some text, chunker) =>
      if p.chunker.inCodeFence then
        let out := p.outAfter (byteLen p.chunker.buffer)
        (⟨chunker, out, byteLen reopening⟩, [some ⟨text, true, out⟩])
      else
        let out := p.outAfter (byteLen text)
        (⟨chunker, out, p.added - byteLen text⟩, [some ⟨text, false, out⟩])

def start (minChunkChars maxChunkChars : Nat) : Progress := ⟨new minChunkChars maxChunkChars, 0, 0⟩

def textOf (calls : List Call) : Str :=
  calls.flatMap fun c => match c with | .push text => text | .tryFlush => []

end Runs

section Search

variable {u pat x y : Str} {lo hi n : Nat}

/-- The pattern stands between two byte offsets. -/
structure Within (u : Str) (lo hi : Nat) (x pat y : Str) : Prop where
  split : u = x ++ pat ++ y
  lower : lo ≤ byteLen x
  upper : byteLen x + byteLen pat ≤ hi

def Occurs (u : Str) (lo hi : Nat) (pat : Str) : Prop := ∃ x y, Within u lo hi x pat y

def Last (u : Str) (lo hi : Nat) (x pat y : Str) : Prop :=
  Within u lo hi x pat y ∧ ∀ x' y', Within u lo hi x' pat y' → byteLen x' ≤ byteLen x

/-- The end of the last occurrence of the first pattern that occurs. -/
def BreakAt (u : Str) (lo hi : Nat) : List Str → Nat → Prop
  | [], _ => False
  | pat :: pats, n => (∃ x y, Last u lo hi x pat y ∧ n = byteLen x + byteLen pat) ∨
      ¬ Occurs u lo hi pat ∧ BreakAt u lo hi pats n

/-- A byte offset that is not inside a character, nor behind the end. -/
def Boundary (u : Str) (n : Nat) : Prop := (splitBytes n u).isSome

theorem boundary_iff : Boundary u n ↔ ∃ a b, u = a ++ b ∧ byteLen a = n :=
  isSome_splitBytes_iff

theorem rfind_none (h : rfind pat u = none) (a b : Str) : u ≠ a ++ pat ++ b := by
  induction u generalizing a with
  | nil =>
    intro he
    obtain ⟨hfront, -⟩ := List.append_eq_nil_iff.mp he.symm
    simp [rfind, (List.append_eq_nil_iff.mp hfront).2] at h
  | cons c s ih =>
    intro he
    rw [rfind] at h
    cases hs : rfind pat s with
    | some pos =>
      rw [hs] at h
      cases h
    | none =>
      simp only [hs] at h
      cases a with
      | nil => simp [he] at h
      | cons d a => exact ih hs a (List.cons.inj he).2

theorem rfind_some {pos : Nat} (h : rfind pat u = some pos) :
    ∃ a b, u = a ++ pat ++ b ∧ byteLen a = pos ∧
      ∀ a' b', u = a' ++ pat ++ b' → byteLen a' ≤ pos := by
  induction u generalizing pos with
  | nil =>
    rw [rfind] at h
    by_cases hpat : pat = []
    · rw [if_pos hpat] at h
      obtain rfl := Option.some.inj h
      refine ⟨[], [], by simp [hpat], rfl, fun a' b' he => ?_⟩
      obtain ⟨hfront, -⟩ := List.append_eq_nil_iff.mp he.symm
      rw [(List.append_eq_nil_iff.mp hfront).1]
      exact le_rfl
    · rw [if_neg hpat] at h
      cases h
  | cons c s ih =>
    rw [rfind] at h
    cases hs : rfind pat s with
    | some pos' =>
      rw [hs] at h
      obtain rfl := Option.some.inj h
      obtain ⟨a, b, rfl, rfl, hlast⟩ := ih hs
      refine ⟨c :: a, b, rfl, byteLen_cons c a, fun a' b' he => ?_⟩
      cases a' with
      | nil => simp
      | cons d a' =>
        obtain ⟨rfl, htail⟩ := List.cons.inj he
        rw [byteLen_cons]
        exact Nat.add_le_add_left (hlast a' b' htail) _
    | none =>
      rw [hs] at h
      by_cases hpat : pat <+: c :: s
      · simp only [if_pos hpat] at h
        obtain rfl := Option.some.inj h
        obtain ⟨b, hb⟩ := hpat
        refine ⟨[], b, hb.symm, rfl, fun a' b' he => ?_⟩
        cases a' with
        | nil => simp
        | cons d a' => exact absurd (List.cons.inj he).2 (rfind_none hs a' b')
      · simp only [if_neg hpat] at h
        cases h

/-- Slicing does not panic when both ends are boundaries. -/
theorem slice_isSome (hle : lo ≤ hi) :
    (slice lo hi u).isSome ↔ Boundary u lo ∧ Boundary u hi := isSome_slice_iff hle

/-- Between two boundaries, the pattern stands in the slice. -/
theorem within_iff {front mid back : Str} (hu : u = front ++ mid ++ back) (hlo : byteLen front = lo)
    (hhi : byteLen (front ++ mid) = hi) : Within u lo hi x pat y ↔
      ∃ a b, x = front ++ a ∧ mid = a ++ pat ++ b ∧ y = b ++ back := by
  constructor
  · rintro ⟨hsplit, hlower, hupper⟩
    have hfront : front <+: x := by
      refine @prefix_of_byteLen_le _ _ u ?_ ?_ (hlo.trans_le hlower)
      · rw [hu, List.append_assoc]
        exact List.prefix_append _ _
      · rw [hsplit, List.append_assoc]
        exact List.prefix_append _ _
    obtain ⟨a, rfl⟩ := hfront
    have hmid : front ++ a ++ pat <+: front ++ mid := by
      refine @prefix_of_byteLen_le _ _ u ?_ ?_ ?_
      · rw [hsplit]
        exact List.prefix_append _ _
      · rw [hu]
        exact List.prefix_append _ _
      · rw [byteLen_append, hhi]
        exact hupper
    obtain ⟨b, hb⟩ := hmid
    rw [List.append_assoc, List.append_assoc, List.append_cancel_left_eq] at hb
    refine ⟨a, b, rfl, by rw [← hb, List.append_assoc], ?_⟩
    rw [hu, ← hb] at hsplit
    simpa using hsplit.symm
  · rintro ⟨a, b, rfl, rfl, rfl⟩
    refine ⟨by simp [hu], ?_, ?_⟩
    · rw [byteLen_append, hlo]
      exact Nat.le_add_right _ _
    · rw [← hhi]
      simp only [byteLen_append]
      omega

/-- A search between two boundaries finds the last occurrence. -/
theorem findLastInRange_spec (hle : lo ≤ hi) (hhi : hi ≤ byteLen u) (hlow : Boundary u lo)
    (hhigh : Boundary u hi) (pat : Str) :
    (∃ x y, Last u lo hi x pat y ∧ findLastInRange u pat lo hi = some (some (byteLen x))) ∨
      ¬ Occurs u lo hi pat ∧ findLastInRange u pat lo hi = some none := by
  obtain ⟨⟨front, mid⟩, hslice⟩ :=
    Option.isSome_iff_exists.mp ((slice_isSome hle).mpr ⟨hlow, hhigh⟩)
  obtain ⟨back, hu, hfront, hmid⟩ := slice_some hle hslice
  have hmin : min hi (byteLen u) = hi := Nat.min_eq_left hhi
  have hfind : findLastInRange u pat lo hi = some ((rfind pat mid).map (lo + ·)) := by
    rw [findLastInRange, hmin, if_neg (Nat.not_lt.mpr hle), hslice]
    rfl
  rw [hfind]
  cases hpos : rfind pat mid with
  | none =>
    refine .inr ⟨?_, rfl⟩
    rintro ⟨x, y, hwithin⟩
    obtain ⟨a, b, -, hsplit, -⟩ := (within_iff hu hfront hmid).mp hwithin
    exact rfind_none hpos a b hsplit
  | some pos =>
    obtain ⟨a, b, hsplit, rfl, hlast⟩ := rfind_some hpos
    refine .inl ⟨front ++ a, b ++ back, ⟨(within_iff hu hfront hmid).mpr ⟨a, b, rfl, hsplit, rfl⟩,
      fun x' y' hwithin => ?_⟩, by rw [byteLen_append, hfront]; rfl⟩
    obtain ⟨a', b', rfl, hsplit', -⟩ := (within_iff hu hfront hmid).mp hwithin
    rw [byteLen_append, byteLen_append]
    exact Nat.add_le_add_left (hlast a' b' hsplit') _

theorem last_unique {x' y' : Str} (h : Last u lo hi x pat y) (h' : Last u lo hi x' pat y') :
    byteLen x = byteLen x' :=
  Nat.le_antisymm (h'.2 x y h.1) (h.2 x' y' h'.1)

/-- The search for a break point, between two boundaries. -/
theorem firstBreak_spec (hle : lo ≤ hi) (hhi : hi ≤ byteLen u) (hlow : Boundary u lo)
    (hhigh : Boundary u hi) (pats : List Str) :
    ∃ r, firstBreak u lo hi pats = some r ∧ ∀ n, r = some n ↔ BreakAt u lo hi pats n := by
  induction pats with
  | nil => exact ⟨none, rfl, by simp [BreakAt]⟩
  | cons pat pats ih =>
    rw [firstBreak]
    obtain ⟨x, y, hlast, hfind⟩ | ⟨hnone, hfind⟩ := findLastInRange_spec hle hhi hlow hhigh pat
    · refine ⟨some (byteLen x + byteLen pat), by rw [hfind]; rfl, fun n => ?_⟩
      have hoccurs : Occurs u lo hi pat := ⟨x, y, hlast.1⟩
      rw [BreakAt, Option.some.injEq]
      constructor
      · rintro rfl
        exact .inl ⟨x, y, hlast, rfl⟩
      · rintro (⟨x', y', hlast', rfl⟩ | ⟨hnot, -⟩)
        · rw [last_unique hlast hlast']
        · exact absurd hoccurs hnot
    · obtain ⟨r, hr, hbreak⟩ := ih
      refine ⟨r, by rw [hfind]; exact hr, fun n => ?_⟩
      rw [hbreak, BreakAt]
      refine ⟨fun h => .inr ⟨hnone, h⟩, ?_⟩
      rintro (⟨x, y, hlast, -⟩ | ⟨-, h⟩)
      · exact absurd ⟨x, y, hlast.1⟩ hnone
      · exact h

/-- The search panics where an end of the range is inside a character. -/
theorem firstBreak_panics (hle : lo ≤ hi) (hhi : hi ≤ byteLen u)
    (h : ¬ (Boundary u lo ∧ Boundary u hi)) (pat : Str) (pats : List Str) :
    firstBreak u lo hi (pat :: pats) = none := by
  have hslice : slice lo hi u = none := by
    rw [← slice_isSome hle] at h
    exact Option.not_isSome_iff_eq_none.mp h
  have hfind : findLastInRange u pat lo hi = none := by
    rw [findLastInRange, Nat.min_eq_left hhi, if_neg (Nat.not_lt.mpr hle), hslice]
    rfl
  rw [firstBreak, hfind]
  rfl

/-- A break point is a boundary. -/
theorem BreakAt.boundary {pats : List Str} (h : BreakAt u lo hi pats n) : Boundary u n := by
  induction pats with
  | nil => exact absurd h id
  | cons pat pats ih =>
    obtain ⟨x, y, hlast, rfl⟩ | ⟨-, hrest⟩ := h
    · exact boundary_iff.mpr ⟨x ++ pat, y, hlast.1.split, byteLen_append x pat⟩
    · exact ih hrest

end Search

section Claims

/-- From where to where the fenced code blocks reach, in bytes. One that is not closed reaches to
the end. -/
def blocksFrom (offset : Nat) (opened : Option Nat) : List Str → List (Nat × Nat)
  | [] => opened.toList.map fun start => (start, offset)
  | line :: lines =>
    let stop := offset + byteLen line
    if fence <+: trim line then
      match opened with
      | some start => (start, stop) :: blocksFrom stop none lines
      | none => blocksFrom stop (some offset) lines
    else blocksFrom stop opened lines

def blocks (text : Str) : List (Nat × Nat) := blocksFrom 0 none (splitInclusive text)

/-- The offset is not inside a block shorter than the limit. -/
def Outside (text : Str) (limit n : Nat) : Prop :=
  ∀ b ∈ blocks text, b.2 - b.1 < limit → ¬ (b.1 < n ∧ n < b.2)

/-- The chunks and what remains are the text, but for a closing line at the end of every chunk that
was broken off inside a fence and an opening line behind it. -/
def Restores : List Chunk → Str → Str → Prop
  | [], rest, text => rest = text
  | c :: cs, rest, text =>
    if c.forced then ∃ front later, c.text = front ++ closing ∧ text = front ++ later ∧
      Restores cs rest (reopening ++ later)
    else ∃ later, text = c.text ++ later ∧ Restores cs rest later

/-- No call panics, nothing is lost, and no boundary is inside a short block. -/
structure Sound (minChunkChars maxChunkChars : Nat) (calls : List Call) : Prop where
  panicFree : none ∉ (run step (start minChunkChars maxChunkChars) calls).2
  lossless : Restores (run step (start minChunkChars maxChunkChars) calls).2.reduceOption
    ((flushRemaining (run step (start minChunkChars maxChunkChars) calls).1.chunker).getD [])
    (textOf calls)
  fenceSafe : ∀ chunk, some chunk ∈ (run step (start minChunkChars maxChunkChars) calls).2 →
    Outside (textOf calls) maxChunkChars chunk.boundary

/-- A call of `try_flush` that looks for a break point does not slice a character, and finds one
outside the short blocks; and one that closes a fence by force is not inside of one either. -/
def Careful (text : Str) (limit : Nat) (p : Progress) : Call → Prop
  | .push _ => True
  | .tryFlush =>
    let c := p.chunker
    let stop := min (byteLen c.buffer) c.maxChunkChars
    c.minChunkChars ≤ byteLen c.buffer →
      if c.inCodeFence then
        c.maxChunkChars ≤ byteLen c.buffer → Outside text limit (p.outAfter (byteLen c.buffer))
      else (Boundary c.buffer c.minChunkChars ∧ Boundary c.buffer stop) ∧
        (∀ n, BreakAt c.buffer c.minChunkChars stop patterns n →
          Outside text limit (p.outAfter n)) ∧
        ((∀ n, ¬ BreakAt c.buffer c.minChunkChars stop patterns n) →
          c.maxChunkChars ≤ byteLen c.buffer → Outside text limit (p.outAfter c.maxChunkChars))

end Claims

section Flushing

variable {c : StreamChunker} {n : Nat}

theorem cutAt_of_boundary (h : Boundary c.buffer n) : ∃ a b, c.buffer = a ++ b ∧ byteLen a = n ∧
    cutAt c n = some (some a, { c with buffer := b }) := by
  obtain ⟨a, b, hsplit, rfl⟩ := boundary_iff.mp h
  refine ⟨a, b, hsplit, rfl, ?_⟩
  rw [cutAt, hsplit, splitBytes_append]
  rfl

theorem tryFlush_short (h : byteLen c.buffer < c.minChunkChars) :
    tryFlush c = some (none, c) := by
  rw [tryFlush, if_pos h]

theorem tryFlush_waiting (hmin : ¬ byteLen c.buffer < c.minChunkChars)
    (hfence : c.inCodeFence = true) (h : byteLen c.buffer < c.maxChunkChars) :
    tryFlush c = some (none, c) := by
  rw [tryFlush, if_neg hmin, if_pos ⟨hfence, h⟩]

theorem tryFlush_forced (hmin : ¬ byteLen c.buffer < c.minChunkChars)
    (hfence : c.inCodeFence = true) (h : ¬ byteLen c.buffer < c.maxChunkChars) :
    tryFlush c = some (some (c.buffer ++ closing),
      { c with buffer := fence ++ trimStartMatches '\x60' c.fenceMarker ++ ['\n'] }) := by
  rw [tryFlush, if_neg hmin, if_neg (fun hand => h hand.2), if_pos hfence]

theorem tryFlush_search (hmin : ¬ byteLen c.buffer < c.minChunkChars)
    (hfence : c.inCodeFence = false) : tryFlush c =
      (firstBreak c.buffer c.minChunkChars (min (byteLen c.buffer) c.maxChunkChars)
        patterns).bind fun r => r.elim
          (if c.maxChunkChars ≤ byteLen c.buffer then cutAt c c.maxChunkChars else some (none, c))
          (cutAt c) := by
  rw [tryFlush, if_neg hmin, hfence, if_neg (by simp), if_neg Bool.false_ne_true]
  show Option.bind _ _ = _
  congr
  funext r
  cases r <;> rfl

/-- What a call of `try_flush` does: nothing, a forced break, a panic, or a cut at a boundary. -/
theorem tryFlush_searched (hrange : c.minChunkChars < c.maxChunkChars)
    (hmin : ¬ byteLen c.buffer < c.minChunkChars) (hfence : c.inCodeFence = false)
    (hbounds : Boundary c.buffer c.minChunkChars ∧
      Boundary c.buffer (min (byteLen c.buffer) c.maxChunkChars)) :
    (∃ a b, c.buffer = a ++ b ∧ tryFlush c = some (some a, { c with buffer := b }) ∧
      (∀ n, BreakAt c.buffer c.minChunkChars (min (byteLen c.buffer) c.maxChunkChars) patterns n ↔
        n = byteLen a)) ∨
    (∃ a b, c.buffer = a ++ b ∧ tryFlush c = some (some a, { c with buffer := b }) ∧
      (∀ n, ¬ BreakAt c.buffer c.minChunkChars (min (byteLen c.buffer) c.maxChunkChars) patterns
        n) ∧ c.maxChunkChars ≤ byteLen c.buffer ∧ byteLen a = c.maxChunkChars) ∨
    (tryFlush c = some (none, c) ∧
      (∀ n, ¬ BreakAt c.buffer c.minChunkChars (min (byteLen c.buffer) c.maxChunkChars) patterns
        n) ∧ ¬ c.maxChunkChars ≤ byteLen c.buffer) := by
  have hle : c.minChunkChars ≤ min (byteLen c.buffer) c.maxChunkChars := by omega
  obtain ⟨r, hr, hbreak⟩ := firstBreak_spec hle (min_le_left _ _) hbounds.1 hbounds.2 patterns
  rw [tryFlush_search hmin hfence, hr, Option.bind_some]
  cases r with
  | some n =>
    have hn := (hbreak n).mp rfl
    obtain ⟨a, b, hsplit, hlength, hcut⟩ := cutAt_of_boundary hn.boundary
    refine .inl ⟨a, b, hsplit, hcut, fun m => ?_⟩
    rw [← hbreak, Option.some.injEq, hlength, eq_comm]
  | none =>
    have hnone (n : Nat) : ¬ BreakAt c.buffer c.minChunkChars
        (min (byteLen c.buffer) c.maxChunkChars) patterns n := by
      rw [← hbreak]
      simp
    by_cases hmax : c.maxChunkChars ≤ byteLen c.buffer
    · have hbound : Boundary c.buffer c.maxChunkChars := by
        rw [← Nat.min_eq_right hmax]
        exact hbounds.2
      obtain ⟨a, b, hsplit, hlength, hcut⟩ := cutAt_of_boundary hbound
      refine .inr (.inl ⟨a, b, hsplit, ?_, hnone, hmax, hlength⟩)
      rw [Option.elim_none, if_pos hmax, hcut]
    · refine .inr (.inr ⟨?_, hnone, hmax⟩)
      rw [Option.elim_none, if_neg hmax]

theorem tryFlush_panics (hrange : c.minChunkChars < c.maxChunkChars)
    (hmin : ¬ byteLen c.buffer < c.minChunkChars) (hfence : c.inCodeFence = false)
    (hbounds : ¬ (Boundary c.buffer c.minChunkChars ∧
      Boundary c.buffer (min (byteLen c.buffer) c.maxChunkChars))) : tryFlush c = none := by
  have hle : c.minChunkChars ≤ min (byteLen c.buffer) c.maxChunkChars := by omega
  rw [tryFlush_search hmin hfence, patterns, firstBreak_panics hle (min_le_left _ _) hbounds]
  rfl

theorem cutAt_cases (c : StreamChunker) (n : Nat) : cutAt c n = none ∨
    ∃ a b, c.buffer = a ++ b ∧ cutAt c n = some (some a, { c with buffer := b }) := by
  by_cases h : Boundary c.buffer n
  · obtain ⟨a, b, hsplit, -, hcut⟩ := cutAt_of_boundary h
    exact .inr ⟨a, b, hsplit, hcut⟩
  · left
    rw [cutAt, Option.not_isSome_iff_eq_none.mp h]
    rfl

/-- A call panics, does nothing, breaks the fence, or cuts the buffer. -/
theorem tryFlush_cases (c : StreamChunker) : tryFlush c = none ∨ tryFlush c = some (none, c) ∨
    (c.inCodeFence = true ∧ tryFlush c = some (some (c.buffer ++ closing),
      { c with buffer := fence ++ trimStartMatches '\x60' c.fenceMarker ++ ['\n'] })) ∨
    c.inCodeFence = false ∧
      ∃ a b, c.buffer = a ++ b ∧ tryFlush c = some (some a, { c with buffer := b }) := by
  by_cases hmin : byteLen c.buffer < c.minChunkChars
  · exact .inr (.inl (tryFlush_short hmin))
  · by_cases hfence : c.inCodeFence = true
    · by_cases hmax : byteLen c.buffer < c.maxChunkChars
      · exact .inr (.inl (tryFlush_waiting hmin hfence hmax))
      · exact .inr (.inr (.inl ⟨hfence, tryFlush_forced hmin hfence hmax⟩))
    · rw [Bool.not_eq_true] at hfence
      rw [tryFlush_search hmin hfence]
      cases firstBreak c.buffer c.minChunkChars (min (byteLen c.buffer) c.maxChunkChars)
        patterns with
      | none => exact .inl rfl
      | some r =>
        cases r with
        | some n =>
          obtain hcut | hcut := cutAt_cases c n
          · exact .inl hcut
          · exact .inr (.inr (.inr ⟨hfence, hcut⟩))
        | none =>
          by_cases hmax : c.maxChunkChars ≤ byteLen c.buffer
          · rw [Option.bind_some, Option.elim_none, if_pos hmax]
            obtain hcut | hcut := cutAt_cases c c.maxChunkChars
            · exact .inl hcut
            · exact .inr (.inr (.inr ⟨hfence, hcut⟩))
          · rw [Option.bind_some, Option.elim_none, if_neg hmax]
            exact .inr (.inl rfl)

end Flushing

section Progressing

variable {p : Progress} {text : Str} {limit minChunkChars maxChunkChars : Nat}

theorem step_panic (h : tryFlush p.chunker = none) : step p .tryFlush = (p, [none]) := by
  rw [step, h]

theorem step_wait {c : StreamChunker} (h : tryFlush p.chunker = some (none, c)) :
    step p .tryFlush = (p, []) := by
  rw [step, h]

theorem step_forced {chunk : Str} {c : StreamChunker} (hfence : p.chunker.inCodeFence = true)
    (h : tryFlush p.chunker = some (some chunk, c)) : step p .tryFlush =
      (⟨c, p.outAfter (byteLen p.chunker.buffer), byteLen reopening⟩,
        [some ⟨chunk, true, p.outAfter (byteLen p.chunker.buffer)⟩]) := by
  rw [step, h]
  simp only [hfence, if_true]

theorem step_cut {chunk : Str} {c : StreamChunker} (hfence : p.chunker.inCodeFence = false)
    (h : tryFlush p.chunker = some (some chunk, c)) : step p .tryFlush =
      (⟨c, p.outAfter (byteLen chunk), p.added - byteLen chunk⟩,
        [some ⟨chunk, false, p.outAfter (byteLen chunk)⟩]) := by
  rw [step, h]
  simp only [hfence, Bool.false_eq_true, if_false]

/-- What is asked of what a call puts out. -/
def Fine (text : Str) (limit : Nat) (o : Option Chunk) : Prop :=
  ∃ chunk, o = some chunk ∧ Outside text limit chunk.boundary

theorem step_fine_iff (hrange : p.chunker.minChunkChars < p.chunker.maxChunkChars) (call : Call) :
    (∀ o ∈ (step p call).2, Fine text limit o) ↔ Careful text limit p call := by
  cases call with
  | push more => exact iff_of_true (fun o ho => absurd ho List.not_mem_nil) trivial
  | tryFlush =>
    have hsingle (chunk : Chunk) : (∀ o ∈ [some chunk], Fine text limit o) ↔
        Outside text limit chunk.boundary := by
      simp [Fine]
    rw [Careful]
    by_cases hmin : byteLen p.chunker.buffer < p.chunker.minChunkChars
    · rw [step_wait (tryFlush_short hmin)]
      refine iff_of_true (fun o ho => absurd ho List.not_mem_nil) fun hle => ?_
      exact absurd hmin (Nat.not_lt.mpr hle)
    · simp only [Nat.not_lt.mp hmin, forall_const]
      cases hfence : p.chunker.inCodeFence with
      | true =>
        simp only [if_true]
        by_cases hmax : byteLen p.chunker.buffer < p.chunker.maxChunkChars
        · rw [step_wait (tryFlush_waiting hmin hfence hmax)]
          refine iff_of_true (fun o ho => absurd ho List.not_mem_nil) fun hle => ?_
          exact absurd hmax (Nat.not_lt.mpr hle)
        · rw [step_forced hfence (tryFlush_forced hmin hfence hmax), hsingle]
          simp only [Nat.not_lt.mp hmax, forall_const]
      | false =>
        simp only [Bool.false_eq_true, if_false]
        by_cases hbounds : Boundary p.chunker.buffer p.chunker.minChunkChars ∧
          Boundary p.chunker.buffer (min (byteLen p.chunker.buffer) p.chunker.maxChunkChars)
        · rw [and_iff_right hbounds]
          obtain ⟨a, b, -, hflush, hbreak⟩ | ⟨a, b, -, hflush, hnone, hmax, hlength⟩ |
              ⟨hflush, hnone, hmax⟩ := tryFlush_searched hrange hmin hfence hbounds
          · rw [step_cut hfence hflush, hsingle]
            simp [hbreak]
          · rw [step_cut hfence hflush, hsingle, hlength]
            exact ⟨fun h => ⟨fun n hn => absurd hn (hnone n), fun _ _ => h⟩,
              fun h => h.2 hnone hmax⟩
          · rw [step_wait hflush]
            simp [hnone, hmax]
        · rw [step_panic (tryFlush_panics hrange hmin hfence hbounds)]
          refine iff_of_false (fun h => ?_) fun h => hbounds h.1
          obtain ⟨chunk, hchunk, -⟩ := h none List.mem_cons_self
          cases hchunk

/-- The thresholds stay, and inside a fence the marker is a fence without a language. -/
structure Valid (c : StreamChunker) : Prop where
  range : c.minChunkChars < c.maxChunkChars
  marker : c.inCodeFence = true → c.fenceMarker = fence

theorem buffer_push (c : StreamChunker) (text : Str) :
    (push c text).buffer = c.buffer ++ text := by
  have hline (c : StreamChunker) (line : Str) : (pushLine c line).buffer = c.buffer ++ line := by
    simp only [pushLine]
    split_ifs <;> rfl
  have hlines (lines : List Str) : (lines.foldl pushLine c).buffer = c.buffer ++ lines.flatten := by
    induction lines generalizing c with
    | nil => simp
    | cons line lines ih => rw [List.foldl_cons, ih, hline, List.flatten_cons, List.append_assoc]
  rw [push, hlines, flatten_splitInclusive]

theorem Valid.push {c : StreamChunker} (h : Valid c) (text : Str) : Valid (push c text) := by
  have hline (c : StreamChunker) (line : Str) (h : Valid c) : Valid (pushLine c line) := by
    obtain ⟨hrange, hmarker⟩ := h
    simp only [pushLine]
    split_ifs <;> constructor <;> simp_all
  rw [Chunking.push]
  induction splitInclusive text generalizing c with
  | nil => exact h
  | cons line lines ih => exact ih (hline c line h)

theorem valid_step (h : Valid p.chunker) (call : Call) : Valid (step p call).1.chunker := by
  cases call with
  | push text => exact h.push text
  | tryFlush =>
    obtain hflush | hflush | ⟨hfence, hflush⟩ | ⟨hfence, a, b, -, hflush⟩ :=
      tryFlush_cases p.chunker
    · rwa [step_panic hflush]
    · rwa [step_wait hflush]
    · rw [step_forced hfence hflush]
      exact ⟨h.range, h.marker⟩
    · rw [step_cut hfence hflush]
      exact ⟨h.range, h.marker⟩

/-- The fence that is opened again has no language. -/
theorem Valid.reopened {c : StreamChunker} (h : Valid c) (hfence : c.inCodeFence = true) :
    fence ++ trimStartMatches '\x60' c.fenceMarker ++ ['\n'] = reopening := by
  rw [h.marker hfence]
  decide

/-- Nothing is lost from any point of a run on. -/
theorem run_restores (calls : List Call) (h : Valid p.chunker) :
    Restores (run step p calls).2.reduceOption (run step p calls).1.chunker.buffer
      (p.chunker.buffer ++ textOf calls) := by
  induction calls generalizing p with
  | nil => exact (List.append_nil _).symm
  | cons call calls ih =>
    have hrest := ih (valid_step h call)
    rw [run_cons]
    cases call with
    | push text =>
      rw [step, buffer_push, List.append_assoc] at hrest
      exact hrest
    | tryFlush =>
      have htext : textOf (.tryFlush :: calls) = textOf calls := rfl
      rw [htext]
      obtain hflush | hflush | ⟨hfence, hflush⟩ | ⟨hfence, a, b, hsplit, hflush⟩ :=
        tryFlush_cases p.chunker
      · rw [step_panic hflush] at hrest ⊢
        exact hrest
      · rw [step_wait hflush] at hrest ⊢
        exact hrest
      · rw [step_forced hfence hflush] at hrest ⊢
        simp only [h.reopened hfence] at hrest ⊢
        exact ⟨p.chunker.buffer, textOf calls, rfl, rfl, hrest⟩
      · rw [step_cut hfence hflush] at hrest ⊢
        exact ⟨b ++ textOf calls, by rw [hsplit, List.append_assoc], hrest⟩

/-- The text so far is what is out, followed by what the buffer holds behind an added fence line. -/
structure Placed (p : Progress) (text : Str) : Prop where
  split : ∃ front added rest, text = front ++ rest ∧ byteLen front = p.out ∧
    p.chunker.buffer = added ++ rest ∧ byteLen added = p.added

theorem placed_step (hvalid : Valid p.chunker) (h : Placed p text) (call : Call) :
    Placed (step p call).1 (text ++ textOf [call]) := by
  obtain ⟨front, added, rest, htext, hfront, hbuffer, hadded⟩ := h
  cases call with
  | push more =>
    refine ⟨front, added, rest ++ more, ?_, hfront, ?_, hadded⟩
    · simp [textOf, htext]
    · rw [step, buffer_push, hbuffer, List.append_assoc]
  | tryFlush =>
    have hnone : text ++ textOf [.tryFlush] = text := List.append_nil _
    rw [hnone]
    obtain hflush | hflush | ⟨hfence, hflush⟩ | ⟨hfence, a, b, hsplit, hflush⟩ :=
      tryFlush_cases p.chunker
    · rw [step_panic hflush]
      exact ⟨front, added, rest, htext, hfront, hbuffer, hadded⟩
    · rw [step_wait hflush]
      exact ⟨front, added, rest, htext, hfront, hbuffer, hadded⟩
    · rw [step_forced hfence hflush, hvalid.reopened hfence]
      refine ⟨text, reopening, [], by simp, ?_, by simp, rfl⟩
      rw [htext, byteLen_append, hfront, Progress.outAfter, hbuffer, byteLen_append, hadded]
      dsimp only
      omega
    · rw [step_cut hfence hflush]
      rw [hsplit] at hbuffer
      obtain ⟨c, rfl, rfl⟩ | ⟨c, rfl, rfl⟩ := List.append_eq_append_iff.mp hbuffer
      · refine ⟨front, c, rest, htext, ?_, rfl, ?_⟩
        · rw [hfront, Progress.outAfter, ← hadded, byteLen_append]
          dsimp only
          omega
        · rw [← hadded, byteLen_append]
          dsimp only
          omega
      · refine ⟨front ++ c, [], b, by rw [htext, List.append_assoc], ?_, rfl, ?_⟩
        · rw [byteLen_append, hfront, Progress.outAfter, ← hadded, byteLen_append]
          dsimp only
          omega
        · rw [byteLen_nil, ← hadded, byteLen_append]
          dsimp only
          omega

theorem textOf_append (calls calls' : List Call) :
    textOf (calls ++ calls') = textOf calls ++ textOf calls' := List.flatMap_append

theorem valid_start (h : minChunkChars < maxChunkChars) :
    Valid (start minChunkChars maxChunkChars).chunker :=
  ⟨h, fun hfence => absurd hfence Bool.false_ne_true⟩

/-- All along a run, the boundaries are counted as the text goes out. -/
theorem run_placed (h : minChunkChars < maxChunkChars) (calls : List Call) :
    Valid (run step (start minChunkChars maxChunkChars) calls).1.chunker ∧
      Placed (run step (start minChunkChars maxChunkChars) calls).1 (textOf calls) := by
  induction calls using List.reverseRecOn with
  | nil => exact ⟨valid_start h, [], [], [], rfl, rfl, rfl, rfl⟩
  | append_singleton calls call ih =>
    rw [run_append, run_cons, run_nil, textOf_append]
    exact ⟨valid_step ih.1 call, placed_step ih.1 ih.2 call⟩

theorem getD_flushRemaining (c : StreamChunker) : (flushRemaining c).getD [] = c.buffer := by
  rw [flushRemaining]
  by_cases h : c.buffer = []
  · rw [if_pos h, h]
    rfl
  · rw [if_neg h]
    rfl

/-- Chunking is sound exactly when every call of `try_flush` that looks for a break point has a
range between characters and finds one outside the short blocks, and no short block is broken by
force. -/
theorem chunks_sound_iff (h : minChunkChars < maxChunkChars) (calls : List Call) :
    Sound minChunkChars maxChunkChars calls ↔
      Allowed step (Careful (textOf calls) maxChunkChars) (start minChunkChars maxChunkChars)
        calls := by
  have hvalid := valid_start h
  have hrestores := run_restores calls hvalid
  rw [← forall_run_iff_allowed_of_inv step (fun p => Valid p.chunker)
    (fun p call hp => valid_step hp call) (fun p call hp => step_fine_iff hp.range call) hvalid]
  constructor
  · rintro ⟨hpanic, -, hsafe⟩ o ho
    cases o with
    | none => exact absurd ho hpanic
    | some chunk => exact ⟨chunk, rfl, hsafe chunk ho⟩
  · intro hfine
    refine ⟨fun hnone => ?_, ?_, fun chunk hchunk => ?_⟩
    · obtain ⟨chunk, hchunk, -⟩ := hfine none hnone
      cases hchunk
    · rw [getD_flushRemaining]
      exact hrestores
    · obtain ⟨chunk', heq, hsafe⟩ := hfine _ hchunk
      rw [Option.some.inj heq]
      exact hsafe

end Progressing

section Examples

/-- A blank line in a code block of thirteen bytes. -/
def fencedCalls : List Call :=
  [.push "Before\n\x60\x60\x60\nx\n\ny\n\x60\x60\x60\n".toList, .tryFlush]

theorem chunks_sound_iff_fencedCalls : Sound 5 100 fencedCalls ↔
    Allowed step (Careful (textOf fencedCalls) 100) (start 5 100) fencedCalls :=
  chunks_sound_iff (by decide) fencedCalls

/-- The chunk ends at the blank line. -/
theorem fencedCalls_not_sound : ¬ Sound 5 100 fencedCalls := by
  intro h
  have hchunk : some ⟨"Before\n\x60\x60\x60\nx\n\n".toList, false, 14⟩ ∈
      (run step (start 5 100) fencedCalls).2 := by decide +kernel
  have hblock : (7, 20) ∈ blocks (textOf fencedCalls) := by decide +kernel
  exact h.fenceSafe _ hchunk _ hblock (by decide) (by decide)

end Examples

end Clawreform.Api.Chunking
