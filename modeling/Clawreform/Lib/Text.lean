import Mathlib.Algebra.Order.Ring.Int
import Mathlib.Data.List.Infix
import Mathlib.Data.List.Induction
import Mathlib.Data.List.TakeWhile

namespace Clawreform.Lib.Text

/-- A text is its sequence of Unicode scalar values; the byte offsets of its
UTF-8 encoding are recovered by `byteLen` and `splitBytes`. -/
abbrev Str := List Char

instance instLawfulBEqStr : LawfulBEq Str := List.instLawfulBEq

def byteLen (s : Str) : Nat := (s.map Char.utf8Size).sum

@[simp] theorem byteLen_nil : byteLen [] = 0 := rfl

@[simp] theorem byteLen_cons (c : Char) (s : Str) : byteLen (c :: s) = c.utf8Size + byteLen s := by
  simp [byteLen]

@[simp] theorem byteLen_append (s t : Str) : byteLen (s ++ t) = byteLen s + byteLen t := by
  simp [byteLen]

/-- Cut a text at a byte offset. There is no cut inside a character or past the
end: slicing there panics. -/
def splitBytes : Nat → Str → Option (Str × Str)
  | 0, s => some ([], s)
  | _ + 1, [] => none
  | n + 1, c :: s =>
    if c.utf8Size ≤ n + 1 then
      (splitBytes (n + 1 - c.utf8Size) s).map (fun p => (c :: p.1, p.2))
    else none

theorem splitBytes_eq {n : Nat} {s a b : Str} (h : splitBytes n s = some (a, b)) :
    s = a ++ b ∧ byteLen a = n := by
  induction n, s using splitBytes.induct generalizing a b with
  | case1 s =>
    simp only [splitBytes, Option.some.injEq, Prod.mk.injEq] at h
    obtain ⟨rfl, rfl⟩ := h
    simp
  | case2 n => simp [splitBytes] at h
  | case3 n c s hc ih =>
    simp only [splitBytes, hc, ↓reduceIte, Option.map_eq_some_iff, Prod.mk.injEq] at h
    obtain ⟨⟨a', b'⟩, hs, rfl, rfl⟩ := h
    obtain ⟨rfl, hl⟩ := ih hs
    exact ⟨rfl, by rw [byteLen_cons, hl]; omega⟩
  | case4 n c s hc => simp [splitBytes, hc] at h

/-- The characters with the Unicode property White_Space. -/
def isWhitespace (c : Char) : Bool :=
  let n := c.toNat
  (0x9 ≤ n && n ≤ 0xD) || n = 0x20 || n = 0x85 || n = 0xA0 || n = 0x1680 ||
    (0x2000 ≤ n && n ≤ 0x200A) || n = 0x2028 || n = 0x2029 || n = 0x202F || n = 0x205F || n = 0x3000

def trimStart (s : Str) : Str := s.dropWhile isWhitespace

def trimEnd (s : Str) : Str := (s.reverse.dropWhile isWhitespace).reverse

def trim (s : Str) : Str := trimEnd (trimStart s)

/-- The first piece `split_whitespace` yields, or nothing for a blank text. -/
def firstWord (s : Str) : Str := (trimStart s).takeWhile (! isWhitespace ·)

def splitWhitespace (s : Str) : List Str := (s.splitOnP isWhitespace).filter (· ≠ [])

/-- The text after the last occurrence of `d`; the whole text when there is none. -/
def afterLast (d : Char) (s : Str) : Str := (s.reverse.takeWhile (· ≠ d)).reverse

/-- The number of characters before the first occurrence of `pat`. -/
def find (pat : Str) : Str → Option Nat
  | [] => if pat = [] then some 0 else none
  | c :: s => if pat <+: c :: s then some 0 else (find pat s).map (· + 1)

/-- The text before the last occurrence of `d`. -/
def beforeLast (d : Char) (s : Str) : Option Str :=
  if d ∈ s then some (s.reverse.dropWhile (· ≠ d)).tail.reverse else none

/-- Cut a text at two byte offsets: what stands in front of the first and what
stands between them. -/
def slice (start stop : Nat) (s : Str) : Option (Str × Str) :=
  (splitBytes start s).bind (fun p => (splitBytes (stop - start) p.2).map (fun q => (p.1, q.1)))

def stripPrefix (pat s : Str) : Option Str := if pat <+: s then some (s.drop pat.length) else none

/-- The lines of a text, each without its line ending; the current line is kept
backwards. -/
@[grind =] def linesFrom (line : Str) : Str → List Str
  | [] => if line = [] then [] else [line.reverse]
  | c :: s =>
    if c = '\n' then
      (if line.head? = some '\r' then line.tail else line).reverse :: linesFrom [] s
    else linesFrom (c :: line) s

def lines (s : Str) : List Str := linesFrom [] s

def showNat (n : Nat) : Str := Nat.toDigits 10 n

def containsText (s : Str) (pat : String) : Bool := (find pat.toList s).isSome

def contains (s pat : Str) : Bool := (find pat s).isSome

/-- Put `new` for every occurrence of `pat`, from left to right and without
overlap. The first argument counts the characters of an occurrence still to pass. -/
def replaceFrom (pat new : Str) : Nat → Str → Str
  | _, [] => []
  | k + 1, _ :: s => replaceFrom pat new k s
  | 0, c :: s =>
    if pat <+: c :: s then new ++ replaceFrom pat new (pat.length - 1) s
    else c :: replaceFrom pat new 0 s

def replaceText (s pat new : Str) : Str := replaceFrom pat new 0 s

section Replacing

variable {pat new k : Str} {c : Char}

theorem replaceText_of_not (h : ¬ pat <+: c :: k) :
    replaceText (c :: k) pat new = c :: replaceText k pat new :=
  if_neg h

theorem replaceFrom_drop (s : Str) : replaceFrom pat new s.length (s ++ k) =
    replaceFrom pat new 0 k := by
  induction s with
  | nil => rfl
  | cons c s ih => exact ih

theorem replaceText_of_start :
    replaceText (c :: pat ++ k) (c :: pat) new = new ++ replaceText k (c :: pat) new := by
  have hpre : c :: pat <+: c :: (pat ++ k) := List.prefix_append (c :: pat) k
  show replaceFrom (c :: pat) new 0 (c :: (pat ++ k)) = _
  rw [replaceFrom, if_pos hpre]
  exact congrArg (new ++ ·) (replaceFrom_drop pat)

end Replacing

/-- Equality in constant time, of texts of one length. -/
def constantTimeEq (s t : Str) : Bool := if byteLen s ≠ byteLen t then false else s = t

theorem constantTimeEq_iff {s t : Str} : constantTimeEq s t ↔ s = t := by
  rw [constantTimeEq]
  split
  · rename_i hlen
    simp only [Bool.false_eq_true, false_iff]
    rintro rfl
    exact hlen rfl
  · simp

theorem afterLast_eq_self {d : Char} {s : Str} (h : d ∉ s) : afterLast d s = s := by
  unfold afterLast
  rw [List.takeWhile_eq_self_iff.mpr, List.reverse_reverse]
  intro c hc
  have : c ≠ d := fun he => h (he ▸ List.mem_reverse.mp hc)
  simpa using this

theorem afterLast_subset (d : Char) (s : Str) : afterLast d s ⊆ s := by
  intro c hc
  rw [afterLast, List.mem_reverse] at hc
  exact List.mem_reverse.mp ((List.takeWhile_sublist _).subset hc)

theorem trimStart_append {s t : Str} (hs : ∀ c ∈ s, isWhitespace c = true) :
    trimStart (s ++ t) = trimStart t := by
  unfold trimStart
  rw [List.dropWhile_append, List.dropWhile_eq_nil_iff.mpr (by simpa using hs)]
  simp

theorem trimStart_eq_self {s : Str} (h : ∀ c ∈ s.head?, isWhitespace c = false) :
    trimStart s = s := by
  cases s with
  | nil => rfl
  | cons c s => simp [trimStart, h c rfl]

theorem trim_eq_self {s : Str} (h : ∀ c ∈ s, isWhitespace c = false) : trim s = s := by
  have hstart : trimStart s = s := trimStart_eq_self fun c hc => h c (List.mem_of_mem_head? hc)
  have hend : s.reverse.dropWhile isWhitespace = s.reverse :=
    trimStart_eq_self fun c hc => h c (List.mem_reverse.mp (List.mem_of_mem_head? hc))
  rw [trim, hstart, trimEnd, hend, List.reverse_reverse]

theorem trimEnd_prefix (s : Str) : trimEnd s <+: s := by
  rw [← List.reverse_suffix, trimEnd, List.reverse_reverse]
  exact List.dropWhile_suffix _

/-- Blanks around a word change nothing: `split_whitespace` of the trimmed text
begins with the word. -/
theorem firstWord_trim {bs w t : Str} (hbs : ∀ c ∈ bs, isWhitespace c = true)
    (hne : w ≠ []) (hw : ∀ c ∈ w, isWhitespace c = false)
    (ht : ∀ c ∈ t.head?, isWhitespace c = true) : firstWord (trim (bs ++ (w ++ t))) = w := by
  have hhead : ∀ u : Str, ∀ c ∈ (w ++ u).head?, isWhitespace c = false := by
    intro u c hc
    cases w with
    | nil => exact absurd rfl hne
    | cons a w =>
      obtain rfl : a = c := by simpa using hc
      exact hw a (by simp)
  have hstart : trimStart (bs ++ (w ++ t)) = w ++ t := by
    rw [trimStart_append hbs, trimStart_eq_self (hhead t)]
  obtain ⟨t', ht', htt⟩ : ∃ t', trimEnd (w ++ t) = w ++ t' ∧ t' <+: t := by
    have hw' : w <+: trimEnd (w ++ t) := by
      unfold trimEnd
      rw [List.reverse_append, List.dropWhile_append]
      split
      · have hr : w.reverse.dropWhile isWhitespace = w.reverse := by
          apply trimStart_eq_self
          intro c hc
          exact hw c (List.mem_reverse.mp (List.mem_of_mem_head? hc))
        rw [hr, List.reverse_reverse]
      · rw [List.reverse_append, List.reverse_reverse]
        exact List.prefix_append _ _
    obtain ⟨t', ht'⟩ := hw'
    refine ⟨t', ht'.symm, ?_⟩
    have := trimEnd_prefix (w ++ t)
    rw [← ht'] at this
    exact (List.prefix_append_right_inj w).mp this
  have hfirst : ∀ c ∈ t'.head?, isWhitespace c = true := by
    intro c hc
    obtain ⟨r, rfl⟩ := htt
    cases t' with
    | nil => cases hc
    | cons a t' => exact ht c (by simpa using hc)
  rw [trim, hstart, ht', firstWord, trimStart_eq_self (hhead t'), List.takeWhile_append,
    List.takeWhile_eq_self_iff.mpr (by simpa using hw), if_pos rfl]
  cases t' with
  | nil => simp
  | cons a t' => simp [hfirst a rfl]

section Spelled

variable {α : Type} {entries : List (String × α)} {spelled : List (Str × α)}

/-- A table under text literals, with the characters of its keys. -/
def Spelled (entries : List (String × α)) (spelled : List (Str × α)) : Prop :=
  entries = spelled.map fun e => (String.ofList e.1, e.2)

theorem spelled_nil : Spelled ([] : List (String × α)) [] := rfl

theorem spelled_cons {cs : Str} {a : α} (h : Spelled entries spelled) :
    Spelled ((String.ofList cs, a) :: entries) ((cs, a) :: spelled) := congrArg _ h

theorem Spelled.mem_toList (h : Spelled entries spelled) {s : String} {a : α}
    (hmem : (s, a) ∈ entries) : (s.toList, a) ∈ spelled := by
  rw [h] at hmem
  obtain ⟨e, he, heq⟩ := List.mem_map.mp hmem
  cases heq
  rw [String.toList_ofList]
  exact he

theorem Spelled.mem_of_toList (h : Spelled entries spelled) {s : String} {a : α}
    (hmem : (s.toList, a) ∈ spelled) : (s, a) ∈ entries := by
  rw [h]
  exact List.mem_map.mpr ⟨_, hmem, by rw [String.ofList_toList]⟩

end Spelled

end Clawreform.Lib.Text
