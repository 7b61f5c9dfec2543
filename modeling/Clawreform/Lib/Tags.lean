import Clawreform.Lib.Find

namespace Clawreform.Lib.Tags

open Clawreform.Lib.Text Clawreform.Lib.Find Clawreform.Lib.Infix

section Model

/-- A text is read as a sequence of characters and tags. -/
inductive Token (τ : Type) where
  | char (c : Char)
  | tag (t : τ)
  deriving DecidableEq

variable {τ : Type} (tags : List τ) (spelling : τ → Str)

def Token.text : Token τ → Str
  | .char c => [c]
  | .tag t => spelling t

def spell (toks : List (Token τ)) : Str := toks.flatMap (Token.text spelling)

/-- Read a text from the left. The first argument counts the characters of the tag in front
still to pass. -/
def lex : Nat → Str → List (Token τ)
  | _, [] => []
  | k + 1, _ :: s => lex k s
  | 0, c :: s =>
    match tags.find? (fun t => spelling t <+: c :: s) with
    | some t => .tag t :: lex ((spelling t).length - 1) s
    | none => .char c :: lex 0 s

/-- A tag is spelled where one text ends and the other begins. -/
def Crosses (a b : Str) : Prop :=
  ∃ t ∈ tags, ∃ n < (spelling t).length, 0 < n ∧ (spelling t).take n <:+ a ∧
    (spelling t).drop n <+: b

instance (a b : Str) : Decidable (Crosses tags spelling a b) :=
  inferInstanceAs (Decidable (∃ t ∈ tags, ∃ n < (spelling t).length, _))

/-- The tokens are the ones their text is read as. -/
def Canonical (toks : List (Token τ)) : Prop := lex tags spelling 0 (spell spelling toks) = toks

/-- Every tag starts with a character that it has only there, and no text starts with two
tags. -/
structure Lawful (opener : Char) : Prop where
  all : ∀ t, t ∈ tags
  starts : ∀ t, ∃ body, spelling t = opener :: body ∧ opener ∉ body
  prefixFree : ∀ t u s, spelling t <+: s → spelling u <+: s → t = u

end Model

section Reading

variable {τ : Type} {tags : List τ} {spelling : τ → Str} {opener : Char} {t u : τ} {c : Char}
  {a b s w : Str} {toks pre rest : List (Token τ)} {k : Nat}

theorem spell_append : spell spelling (pre ++ rest) = spell spelling pre ++ spell spelling rest :=
  List.flatMap_append ..

theorem spell_cons (x : Token τ) :
    spell spelling (x :: rest) = x.text spelling ++ spell spelling rest := List.flatMap_cons ..

theorem lex_skip : lex tags spelling k s = lex tags spelling 0 (s.drop k) := by
  induction s generalizing k with
  | nil => cases k <;> rfl
  | cons c s ih =>
    cases k with
    | zero => rfl
    | succ k => exact ih

theorem lex_char (h : ∀ t ∈ tags, ¬ spelling t <+: c :: s) :
    lex tags spelling 0 (c :: s) = .char c :: lex tags spelling 0 s := by
  have hnone : tags.find? (fun t => spelling t <+: c :: s) = none := by
    rw [List.find?_eq_none]
    exact fun t ht => by simpa using h t ht
  rw [lex, hnone]

/-- No text starts with two tags when no tag starts with another one. -/
theorem prefixFree_of_spellings (h : ∀ t u, spelling t <+: spelling u → t = u) (t u : τ) (s : Str)
    (ht : spelling t <+: s) (hu : spelling u <+: s) : t = u := by
  obtain hle | hle := Nat.le_total (spelling t).length (spelling u).length
  · exact h t u (List.prefix_of_prefix_length_le ht hu hle)
  · exact (h u t (List.prefix_of_prefix_length_le hu ht hle)).symm

variable (L : Lawful tags spelling opener)

include L

theorem Lawful.ne_nil (t : τ) : spelling t ≠ [] := by
  obtain ⟨body, hbody, -⟩ := L.starts t
  rw [hbody]
  exact List.cons_ne_nil _ _

theorem Lawful.lex_tag :
    lex tags spelling 0 (spelling t ++ s) = .tag t :: lex tags spelling 0 s := by
  obtain ⟨body, hbody, -⟩ := L.starts t
  have hpre : spelling t <+: spelling t ++ s := List.prefix_append ..
  have hfind : tags.find? (fun u => spelling u <+: spelling t ++ s) = some t := by
    cases hu : tags.find? (fun u => spelling u <+: spelling t ++ s) with
    | none =>
      have hnot := List.find?_eq_none.mp hu t (L.all t)
      simp at hnot
    | some u =>
      have hprefix := List.find?_some hu
      rw [L.prefixFree t u _ hpre (by simpa using hprefix)]
  rw [hbody, List.cons_append] at hfind ⊢
  rw [lex, hfind]
  dsimp only
  rw [lex_skip, hbody, List.length_cons, Nat.add_sub_cancel, List.drop_left]

/-- No tag is spelled across the start of a tag. -/
theorem Lawful.not_crosses_tag (t : τ) : ¬ Crosses tags spelling a (spelling t ++ s) := by
  rintro ⟨u, -, n, hn, hpos, -, hdrop⟩
  obtain ⟨body, hbody, hopener⟩ := L.starts u
  obtain ⟨body', hbody', -⟩ := L.starts t
  rw [hbody] at hn hdrop
  obtain ⟨n, rfl⟩ := Nat.exists_eq_succ_of_ne_zero hpos.ne'
  rw [List.drop_succ_cons, hbody', List.cons_append] at hdrop
  cases hrest : body.drop n with
  | nil =>
    have hlen := List.drop_eq_nil_iff.mp hrest
    rw [List.length_cons] at hn
    omega
  | cons c r =>
    rw [hrest, List.cons_prefix_cons] at hdrop
    apply hopener
    rw [← hdrop.1]
    exact List.mem_of_mem_drop (hrest ▸ List.mem_cons_self)

/-- A text is empty, starts with a tag or starts with a character. -/
theorem Lawful.induction {P : Str → Prop} (nil : P [])
    (tag : ∀ t s, P s → P (spelling t ++ s))
    (char : ∀ c s, (∀ t ∈ tags, ¬ spelling t <+: c :: s) → P s → P (c :: s)) (s : Str) : P s := by
  induction hn : s.length using Nat.strong_induction_on generalizing s with
  | _ n ih =>
    subst hn
    cases s with
    | nil => exact nil
    | cons c s =>
      by_cases htag : ∃ t ∈ tags, spelling t <+: c :: s
      · obtain ⟨t, -, rest, hrest⟩ := htag
        rw [← hrest]
        have hpos := List.length_pos_of_ne_nil (L.ne_nil t)
        have hlen := congrArg List.length hrest
        rw [List.length_append] at hlen
        exact tag t rest (ih _ (by omega) rest rfl)
      · exact char c s (fun t ht hpre => htag ⟨t, ht, hpre⟩) (ih _ (by simp) s rfl)

theorem Lawful.spell_lex (s : Str) : spell spelling (lex tags spelling 0 s) = s := by
  induction s using L.induction with
  | nil => rfl
  | tag t s ih => rw [L.lex_tag, spell_cons, ih, Token.text]
  | char c s hnot ih => rw [lex_char hnot, spell_cons, ih]; rfl

theorem Lawful.canonical_lex (s : Str) : Canonical tags spelling (lex tags spelling 0 s) := by
  rw [Canonical, L.spell_lex]

theorem Lawful.lex_append (h : ¬ Crosses tags spelling a b) :
    lex tags spelling 0 (a ++ b) = lex tags spelling 0 a ++ lex tags spelling 0 b := by
  induction a using L.induction with
  | nil => rfl
  | tag t a ih =>
    have hrest : ¬ Crosses tags spelling a b := by
      rintro ⟨u, hu, n, hn, hpos, hsuffix, hprefix⟩
      exact h ⟨u, hu, n, hn, hpos, hsuffix.trans (List.suffix_append ..), hprefix⟩
    rw [List.append_assoc, L.lex_tag, L.lex_tag, ih hrest, List.cons_append]
  | char c a hnot ih =>
    have hrest : ¬ Crosses tags spelling a b := by
      rintro ⟨u, hu, n, hn, hpos, hsuffix, hprefix⟩
      exact h ⟨u, hu, n, hn, hpos, hsuffix.trans (List.suffix_cons ..), hprefix⟩
    have hnot' : ∀ t ∈ tags, ¬ spelling t <+: c :: (a ++ b) := by
      intro t ht hpre
      by_cases hlen : (spelling t).length ≤ (c :: a).length
      · exact hnot t ht (List.prefix_of_prefix_length_le hpre (List.prefix_append (c :: a) b) hlen)
      · obtain ⟨v, hv⟩ := List.prefix_of_prefix_length_le (List.prefix_append (c :: a) b) hpre
          (by omega)
        rw [← hv, ← List.cons_append, List.prefix_append_right_inj] at hpre
        refine h ⟨t, ht, (c :: a).length, by omega, by simp, ?_, ?_⟩
        · rw [← hv, List.take_left]
        · rw [← hv, List.drop_left]
          exact hpre
    rw [List.cons_append, lex_char hnot', lex_char hnot, ih hrest, List.cons_append]

theorem Lawful.canonical_tag_iff :
    Canonical tags spelling (.tag t :: rest) ↔ Canonical tags spelling rest := by
  rw [Canonical, spell_cons, Token.text, L.lex_tag, List.cons_inj_right, Canonical]

omit L in
theorem canonical_char_iff : Canonical tags spelling (.char c :: rest) ↔
    (∀ t ∈ tags, ¬ spelling t <+: c :: spell spelling rest) ∧ Canonical tags spelling rest := by
  have htext : spell spelling (.char c :: rest) = c :: spell spelling rest := spell_cons _
  rw [Canonical, htext]
  constructor
  · intro h
    have hnot : ∀ t ∈ tags, ¬ spelling t <+: c :: spell spelling rest := by
      rw [lex] at h
      split at h
      · cases h
      · rename_i hnone
        intro t ht
        simpa using List.find?_eq_none.mp hnone t ht
    rw [lex_char hnot, List.cons_inj_right] at h
    exact ⟨hnot, h⟩
  · rintro ⟨hnot, hrest⟩
    rw [lex_char hnot, hrest]

theorem Lawful.canonical_right (h : Canonical tags spelling (pre ++ rest)) :
    Canonical tags spelling rest := by
  induction pre with
  | nil => exact h
  | cons x pre ih =>
    rw [List.cons_append] at h
    cases x with
    | char c => exact ih (canonical_char_iff.mp h).2
    | tag t => exact ih (L.canonical_tag_iff.mp h)

theorem Lawful.canonical_left (h : Canonical tags spelling (pre ++ rest)) :
    Canonical tags spelling pre := by
  induction pre with
  | nil => rfl
  | cons x pre ih =>
    rw [List.cons_append] at h
    cases x with
    | tag t => exact L.canonical_tag_iff.mpr (ih (L.canonical_tag_iff.mp h))
    | char c =>
      obtain ⟨hnot, hrest⟩ := canonical_char_iff.mp h
      refine canonical_char_iff.mpr ⟨fun t ht hpre => hnot t ht ?_, ih hrest⟩
      rw [spell_append]
      exact hpre.trans (List.prefix_append (c :: spell spelling pre) _)

theorem Lawful.canonical_append (hpre : Canonical tags spelling pre)
    (hrest : Canonical tags spelling rest)
    (h : ¬ Crosses tags spelling (spell spelling pre) (spell spelling rest)) :
    Canonical tags spelling (pre ++ rest) := by
  rw [Canonical, spell_append, L.lex_append h, hpre, hrest]

/-- A tag cannot start inside a text that does not hold the opening character. -/
theorem Lawful.find_behind (hw : opener ∉ w) :
    find (spelling t) (w ++ s) = (find (spelling t) s).map (· + w.length) := by
  induction w with
  | nil => simp
  | cons c w ih =>
    rw [List.mem_cons, not_or] at hw
    obtain ⟨body, hbody, -⟩ := L.starts t
    have hnot : ¬ spelling t <+: c :: (w ++ s) := by
      rw [hbody, List.cons_prefix_cons]
      exact fun h => hw.1 h.1
    rw [List.cons_append, find_cons_of_not hnot, ih hw.2, Option.map_map]
    rfl

theorem Lawful.find_behind_tag (hne : t ≠ u) :
    find (spelling t) (spelling u ++ s) =
      (find (spelling t) s).map (· + (spelling u).length) := by
  obtain ⟨body, hbody, hopener⟩ := L.starts u
  have hnot : ¬ spelling t <+: spelling u ++ s :=
    fun hpre => hne (L.prefixFree t u _ hpre (List.prefix_append ..))
  rw [hbody, List.cons_append] at hnot ⊢
  rw [find_cons_of_not hnot, L.find_behind hopener, Option.map_map]
  rfl

theorem Lawful.find_tag (h : Canonical tags spelling (pre ++ .tag t :: rest))
    (hfirst : .tag t ∉ pre) :
    find (spelling t) (spell spelling (pre ++ .tag t :: rest)) =
      some (spell spelling pre).length := by
  induction pre with
  | nil =>
    obtain ⟨body, hbody, -⟩ := L.starts t
    have hpre : opener :: body <+: opener :: (body ++ spell spelling rest) :=
      List.prefix_append (opener :: body) _
    rw [List.nil_append, spell_cons, Token.text, hbody, List.cons_append, find, if_pos hpre]
    rfl
  | cons x pre ih =>
    rw [List.mem_cons, not_or] at hfirst
    rw [List.cons_append] at h ⊢
    rw [spell_cons, spell_cons, List.length_append]
    cases x with
    | char c =>
      obtain ⟨hnot, hrest⟩ := canonical_char_iff.mp h
      change find (spelling t) (c :: spell spelling (pre ++ .tag t :: rest)) =
        some (1 + (spell spelling pre).length)
      rw [find_cons_of_not (hnot t (L.all t)), ih hrest hfirst.2, Option.map_some, Nat.add_comm]
    | tag u =>
      have hne : t ≠ u := fun heq => hfirst.1 (congrArg Token.tag heq)
      change find (spelling t) (spelling u ++ spell spelling (pre ++ .tag t :: rest)) =
        some ((spelling u).length + (spell spelling pre).length)
      rw [L.find_behind_tag hne, ih (L.canonical_tag_iff.mp h) hfirst.2, Option.map_some,
        Nat.add_comm]

theorem Lawful.find_eq_none (h : .tag t ∉ lex tags spelling 0 s) : find (spelling t) s = none := by
  induction s using L.induction with
  | nil => rw [find, if_neg (L.ne_nil t)]
  | tag u s ih =>
    rw [L.lex_tag, List.mem_cons, not_or] at h
    have hne : t ≠ u := fun heq => h.1 (congrArg Token.tag heq)
    rw [L.find_behind_tag hne, ih h.2, Option.map_none]
  | char c s hchar ih =>
    rw [lex_char hchar, List.mem_cons, not_or] at h
    rw [find_cons_of_not (hchar t (L.all t)), ih h.2, Option.map_none]

/-- Every occurrence of a tag is read as the tag. -/
theorem Lawful.mem_lex (h : spelling t <:+: s) : .tag t ∈ lex tags spelling 0 s := by
  by_contra hnot
  exact find_eq_none_iff.mp (L.find_eq_none hnot) h

theorem Lawful.isInfix_of_mem (h : .tag t ∈ lex tags spelling 0 s) : spelling t <:+: s := by
  obtain ⟨pre, rest, hsplit⟩ := List.append_of_mem h
  have hspell := L.spell_lex s
  rw [hsplit, spell_append, spell_cons, Token.text, ← List.append_assoc] at hspell
  exact ⟨_, _, hspell⟩

theorem Lawful.find_none (h : Canonical tags spelling toks) (hnot : .tag t ∉ toks) :
    find (spelling t) (spell spelling toks) = none := by
  apply L.find_eq_none
  rwa [h]

end Reading

end Clawreform.Lib.Tags
