import Clawreform.Lib.Scan
import Mathlib.Data.List.Forall2

namespace Clawreform.Lib.Lowercase

open Clawreform.Lib.Text Clawreform.Lib.Find Clawreform.Lib.Slices Clawreform.Lib.Scan

section Meaning

/-- The tables of Unicode: the lower case of a character, and whether a sigma stands at the end of
a word, between the text before it (backwards) and the text behind it. -/
structure Unicode where
  lower : Char → Str
  wordEnd : Str → Str → Bool
  lower_ascii (c : Char) : c.toNat < 128 → lower c = [c.toLower]
  lower_other (c d : Char) : d ∈ lower c → d.toNat < 128 → d.isAlpha = false → d = c

variable (u : Unicode)

def lowercaseFrom : Str → Str → Str
  | _, [] => []
  | before, c :: s =>
    (if c = 'Σ' then [if u.wordEnd before s then 'ς' else 'σ'] else u.lower c) ++
      lowercaseFrom (c :: before) s

def toLowercase (s : Str) : Str := lowercaseFrom u [] s

/-- The lower case of a character takes as many bytes as the character. -/
def Keeps (c : Char) : Prop := c = 'Σ' ∨ ∃ d, u.lower c = [d] ∧ d.utf8Size = c.utf8Size

end Meaning

section Twins

variable (u : Unicode) (marks : List Char)

/-- No character that changes its length stands in front of a mark. -/
def Aligned (t : Str) : Prop :=
  ∃ a b, t = a ++ b ∧ (∀ c ∈ a, Keeps u c) ∧ ∀ m ∈ marks, m ∉ b

/-- Two texts whose offsets agree up to the last mark in either. -/
def Twin (t l : Str) : Prop :=
  ∃ a b la lb, t = a ++ b ∧ l = la ++ lb ∧ (∀ c ∈ a, Keeps u c) ∧
    List.Forall₂ (fun c d => d.utf8Size = c.utf8Size) a la ∧ (∀ m ∈ marks, m ∉ b) ∧
    ∀ m ∈ marks, m ∉ lb

/-- Some bytes further in both of two texts. -/
structure Moves (t l : Str) (n : Nat) (t' l' : Str) : Prop where
  twin : Twin u marks t' l'
  text : ∃ p, t = p ++ t' ∧ byteLen p = n ∧ ∀ c ∈ p, Keeps u c
  copy : ∃ q, l = q ++ l' ∧ byteLen q = n

end Twins

section Ascii

theorem toLower_of_upper {c : Char} (h : c.val ≥ 'A'.val ∧ c.val ≤ 'Z'.val) :
    c.toLower.val.toNat = c.val.toNat + 32 := by
  have hlower : c.toLower.val = c.val + ('a'.val - 'A'.val) :=
    congrArg Char.val (dif_pos h : c.toLower = _)
  have hhigh : c.val.toNat ≤ 90 := UInt32.le_iff_toNat_le.mp h.2
  rw [hlower, UInt32.toNat_add, show ('a'.val - 'A'.val).toNat = 32 from rfl]
  omega

theorem toLower_eq_self {c : Char} (h : c.toLower.isAlpha = false) : c.toLower = c := by
  by_cases hupper : c.val ≥ 'A'.val ∧ c.val ≤ 'Z'.val
  · have hlow : 65 ≤ c.val.toNat := UInt32.le_iff_toNat_le.mp hupper.1
    have hhigh : c.val.toNat ≤ 90 := UInt32.le_iff_toNat_le.mp hupper.2
    have hval := toLower_of_upper hupper
    have hlower : c.toLower.isLower = true := by
      show (decide (c.toLower.val ≥ 'a'.val) && decide (c.toLower.val ≤ 'z'.val)) = true
      rw [Bool.and_eq_true, decide_eq_true_iff, decide_eq_true_iff, ge_iff_le,
        UInt32.le_iff_toNat_le, UInt32.le_iff_toNat_le, hval]
      exact ⟨by show 97 ≤ _; omega, by show _ ≤ 122; omega⟩
    have halpha : c.toLower.isAlpha = true := (congrArg (_ || ·) hlower).trans (Bool.or_true _)
    exact absurd halpha (by simp [h])
  · exact dif_neg hupper

theorem toLower_of_isAlpha {c : Char} (h : c.isAlpha = false) : c.toLower = c := by
  refine dif_neg fun hupper => ?_
  have hisUpper : c.isUpper = true := decide_eq_true hupper
  have halpha : c.isAlpha = true := (congrArg (· || _) hisUpper).trans (Bool.true_or _)
  exact absurd halpha (by simp [h])

theorem utf8Size_of_ascii {c : Char} (h : c.toNat < 128) : c.utf8Size = 1 := by
  rw [Char.utf8Size_eq_one_iff, UInt32.le_iff_toNat_le]
  exact Nat.le_of_lt_succ h

theorem toNat_of_utf8Size {c : Char} (h : c.utf8Size = 1) : c.toNat < 128 := by
  rw [Char.utf8Size_eq_one_iff, UInt32.le_iff_toNat_le] at h
  exact Nat.lt_succ_of_le h

theorem utf8Size_toLower (c : Char) : c.toLower.utf8Size = c.utf8Size := by
  by_cases hupper : c.val ≥ 'A'.val ∧ c.val ≤ 'Z'.val
  · have hle : c.val.toNat ≤ 90 := UInt32.le_iff_toNat_le.mp hupper.2
    have hlow : c.toLower.toNat < 128 := by
      show c.toLower.val.toNat < 128
      rw [toLower_of_upper hupper]
      omega
    rw [utf8Size_of_ascii hlow, utf8Size_of_ascii (show c.val.toNat < 128 by omega)]
  · exact congrArg Char.utf8Size (dif_neg hupper : c.toLower = c)

/-- The lower case of the ASCII letters. -/
def lower (s : Str) : Str := s.map Char.toLower

variable {s : Str}

theorem lower_append (s t : Str) : lower (s ++ t) = lower s ++ lower t := List.map_append

/-- The lower case of a mark is the mark, of nothing else. -/
theorem mem_lower_iff {m : Char} (h : m.isAlpha = false) : m ∈ lower s ↔ m ∈ s := by
  constructor
  · intro hm
    obtain ⟨c, hc, rfl⟩ := List.mem_map.mp hm
    rwa [toLower_eq_self h]
  · exact fun hm => List.mem_map.mpr ⟨m, hm, toLower_of_isAlpha h⟩

end Ascii

section Mirrors

variable {u : Unicode} {pat t l a b : Str} {n : Nat}

/-- A character and its lower case are the same for who looks for ASCII only. -/
def Mirrors (c d : Char) : Prop :=
  d.utf8Size = c.utf8Size ∧ ∀ x : Char, x.toNat < 128 → (x = d ↔ x = c.toLower)

/-- Outside ASCII there is nothing to find. -/
theorem mirrors_of_large {c d : Char} (hc : 128 ≤ c.toNat) (hsize : d.utf8Size = c.utf8Size) :
    Mirrors c d := by
  have hd : ¬ d.toNat < 128 := by
    intro hd
    rw [utf8Size_of_ascii hd] at hsize
    exact absurd (toNat_of_utf8Size hsize.symm) (Nat.not_lt.mpr hc)
  have hself : ¬ c.toLower.toNat < 128 := by
    intro hlow
    have hone := utf8Size_of_ascii hlow
    rw [utf8Size_toLower] at hone
    exact absurd (toNat_of_utf8Size hone) (Nat.not_lt.mpr hc)
  refine ⟨hsize, fun x hx => ⟨?_, ?_⟩⟩
  · rintro rfl
    exact absurd hx hd
  · rintro rfl
    exact absurd hx hself

theorem byteLen_take_of_forall₂ (h : List.Forall₂ Mirrors t l) (n : Nat) :
    byteLen (l.take n) = byteLen (t.take n) := by
  induction h generalizing n with
  | nil => rfl
  | cons hsize _ ih =>
    cases n with
    | zero => rfl
    | succ n =>
      rw [List.take_succ_cons, List.take_succ_cons, byteLen_cons, byteLen_cons, ih, hsize.1]

theorem prefix_iff_of_mirrors (hpat : ∀ x ∈ pat, x.toNat < 128) (h : List.Forall₂ Mirrors t l) :
    pat <+: l ↔ pat <+: lower t := by
  induction h generalizing pat with
  | nil => rfl
  | @cons c d t l hcd _ ih =>
    cases pat with
    | nil => simp
    | cons x pat =>
      obtain ⟨hx, hpat⟩ := List.forall_mem_cons.mp hpat
      rw [List.cons_prefix_cons, hcd.2 x hx, ih hpat]
      exact List.cons_prefix_cons.symm

theorem find_mirror (hpat : ∀ x ∈ pat, x.toNat < 128) (h : List.Forall₂ Mirrors t l) :
    find pat l = find pat (lower t) := by
  induction h with
  | nil => rfl
  | @cons c d t l hcd hrest ih =>
    have hpre := prefix_iff_of_mirrors hpat (List.Forall₂.cons hcd hrest)
    show (if pat <+: d :: l then some 0 else (find pat l).map (· + 1)) =
      if pat <+: lower (c :: t) then some 0 else (find pat (lower t)).map (· + 1)
    rw [ih]
    simp only [hpre]

theorem findByte_mirror (hpat : ∀ x ∈ pat, x.toNat < 128) (h : List.Forall₂ Mirrors (a ++ b) l)
    (hfind : find pat (lower (a ++ b)) = some a.length) : findByte pat l = some (byteLen a) := by
  rw [findByte, find_mirror hpat h, hfind, Option.map_some, byteLen_take_of_forall₂ h,
    List.take_left]

theorem findByte_mirror_none (hpat : ∀ x ∈ pat, x.toNat < 128) (h : List.Forall₂ Mirrors t l)
    (hfind : find pat (lower t) = none) : findByte pat l = none := by
  rw [findByte, find_mirror hpat h, hfind]
  rfl

theorem exists_mirror_append (h : List.Forall₂ Mirrors (a ++ b) l) :
    ∃ la lb, l = la ++ lb ∧ List.Forall₂ Mirrors a la ∧ List.Forall₂ Mirrors b lb := by
  induction a generalizing l with
  | nil => exact ⟨[], l, rfl, .nil, h⟩
  | cons c a ih =>
    obtain ⟨d, l', hd, hl, rfl⟩ := List.forall₂_cons_left_iff.mp h
    obtain ⟨la, lb, rfl, ha, hb⟩ := ih hl
    exact ⟨d :: la, lb, rfl, .cons hd ha, hb⟩

theorem byteLen_mirror (h : List.Forall₂ Mirrors a l) : byteLen l = byteLen a := by
  induction h with
  | nil => rfl
  | cons hsize _ ih => rw [byteLen_cons, byteLen_cons, hsize.1, ih]

theorem rest_mirror (h : List.Forall₂ Mirrors a l) (k : Str) :
    rest (byteLen a) (l ++ k) = .ok k := by
  rw [← byteLen_mirror h]
  exact rest_append l k

theorem byteLen_lower (s : Str) : byteLen (lower s) = byteLen s := by
  induction s with
  | nil => rfl
  | cons c s ih =>
    rw [byteLen_cons, ← ih, ← utf8Size_toLower c]
    exact byteLen_cons _ _

end Mirrors

section Lower

variable {u : Unicode} {marks : List Char} {a b t : Str} {c m : Char}

theorem keeps_of_ascii (h : c.toNat < 128) : Keeps u c :=
  .inr ⟨c.toLower, u.lower_ascii c h, utf8Size_toLower c⟩

theorem lowercaseFrom_kept (before b : Str) (h : ∀ c ∈ a, Keeps u c) :
    ∃ la, lowercaseFrom u before (a ++ b) = la ++ lowercaseFrom u (a.reverse ++ before) b ∧
      List.Forall₂ Mirrors a la := by
  induction a generalizing before with
  | nil => exact ⟨[], rfl, .nil⟩
  | cons c a ih =>
    obtain ⟨hc, ha⟩ := List.forall_mem_cons.mp h
    obtain ⟨la, hla, hmirrors⟩ := ih (c :: before) ha
    obtain ⟨d, hd, hcd⟩ : ∃ d, (if c = 'Σ' then
        [if u.wordEnd before (a ++ b) then 'ς' else 'σ'] else u.lower c) = [d] ∧
          Mirrors c d := by
      by_cases hsigma : c = 'Σ'
      · subst hsigma
        rw [if_pos rfl]
        cases u.wordEnd before (a ++ b) with
        | true => exact ⟨'ς', rfl, mirrors_of_large (by decide) (by decide)⟩
        | false => exact ⟨'σ', rfl, mirrors_of_large (by decide) (by decide)⟩
      · rw [if_neg hsigma]
        obtain ⟨d, hd, hsize⟩ := hc.resolve_left hsigma
        refine ⟨d, hd, ?_⟩
        by_cases hascii : c.toNat < 128
        · rw [u.lower_ascii c hascii] at hd
          cases hd
          exact ⟨hsize, fun x _ => Iff.rfl⟩
        · exact mirrors_of_large (Nat.not_lt.mp hascii) hsize
    refine ⟨d :: la, ?_, .cons hcd hmirrors⟩
    rw [List.cons_append, lowercaseFrom, hd, hla, List.reverse_cons, List.append_assoc]
    rfl

theorem mirrors_toLowercase (h : ∀ c ∈ t, Keeps u c) :
    List.Forall₂ Mirrors t (toLowercase u t) := by
  obtain ⟨la, hla, hmirrors⟩ := lowercaseFrom_kept [] [] h
  rw [List.append_nil, lowercaseFrom, List.append_nil] at hla
  rw [toLowercase, hla]
  exact hmirrors

/-- A mark is the lower case of itself only. -/
theorem notMem_lowercaseFrom (hm : m.toNat < 128 ∧ m.isAlpha = false) (before : Str) (h : m ∉ b) :
    m ∉ lowercaseFrom u before b := by
  induction b generalizing before with
  | nil => exact List.not_mem_nil
  | cons c b ih =>
    rw [List.mem_cons, not_or] at h
    rw [lowercaseFrom, List.mem_append, not_or]
    refine ⟨?_, ih (c :: before) h.2⟩
    split
    · intro hin
      rw [List.mem_singleton] at hin
      split at hin
      · rw [hin] at hm
        exact absurd hm.1 (by decide)
      · rw [hin] at hm
        exact absurd hm.1 (by decide)
    · exact fun hin => h.1 (u.lower_other c m hin hm.1 hm.2)

theorem twin_toLowercase (hmarks : ∀ m ∈ marks, m.toNat < 128 ∧ m.isAlpha = false)
    (h : Aligned u marks t) : Twin u marks t (toLowercase u t) := by
  obtain ⟨a, b, rfl, ha, hb⟩ := h
  obtain ⟨la, hla, hmirrors⟩ := lowercaseFrom_kept [] b ha
  exact ⟨a, b, la, _, rfl, hla, ha, hmirrors.imp fun _ _ h => h.1, hb,
    fun m hm => notMem_lowercaseFrom (hmarks m hm) _ (hb m hm)⟩

theorem twin_self (h : Aligned u marks t) : Twin u marks t t := by
  obtain ⟨a, b, rfl, ha, hb⟩ := h
  exact ⟨a, b, a, b, rfl, rfl, ha, List.forall₂_same.mpr fun _ _ => rfl, hb, hb⟩

theorem Aligned.append (ha : ∀ c ∈ a, Keeps u c) (h : Aligned u marks t) :
    Aligned u marks (a ++ t) := by
  obtain ⟨x, y, rfl, hx, hy⟩ := h
  exact ⟨a ++ x, y, (List.append_assoc a x y).symm, List.forall_mem_append.mpr ⟨ha, hx⟩, hy⟩

theorem aligned_of_keeps (ha : ∀ c ∈ a, Keeps u c) : Aligned u marks a :=
  ⟨a, [], (List.append_nil a).symm, ha, fun _ _ => List.not_mem_nil⟩

end Lower

section Moving

variable {u : Unicode} {marks : List Char} {t l t' l' t'' l'' x y pat : Str} {n k pos : Nat}
  {c d m : Char}

theorem Twin.aligned (h : Twin u marks t l) : Aligned u marks t := by
  obtain ⟨a, b, -, -, rfl, -, ha, -, hb, -⟩ := h
  exact ⟨a, b, rfl, ha, hb⟩

theorem Moves.refl (h : Twin u marks t l) : Moves u marks t l 0 t l :=
  ⟨h, ⟨[], rfl, rfl, fun _ hc => absurd hc List.not_mem_nil⟩, ⟨[], rfl, rfl⟩⟩

theorem Moves.trans (h : Moves u marks t l n t' l') (h' : Moves u marks t' l' k t'' l'') :
    Moves u marks t l (n + k) t'' l'' := by
  obtain ⟨-, ⟨p, rfl, rfl, hp⟩, q, rfl, hq⟩ := h
  obtain ⟨htwin, ⟨p', rfl, rfl, hp'⟩, q', rfl, hq'⟩ := h'
  refine ⟨htwin, ⟨p ++ p', (List.append_assoc _ _ _).symm, byteLen_append _ _,
    List.forall_mem_append.mpr ⟨hp, hp'⟩⟩, q ++ q', (List.append_assoc _ _ _).symm, ?_⟩
  rw [byteLen_append, hq, hq']

theorem Moves.rest_text (h : Moves u marks t l n t' l') : rest n t = .ok t' := by
  obtain ⟨-, ⟨p, rfl, rfl, -⟩, -⟩ := h
  exact rest_append p t'

theorem Moves.rest_copy (h : Moves u marks t l n t' l') : rest n l = .ok l' := by
  obtain ⟨-, -, q, rfl, rfl⟩ := h
  exact rest_append q l'

/-- What lies between two places that are reached. -/
theorem Moves.part (h : Moves u marks t l n t' l') (h' : Moves u marks t' l' k t'' l'') :
    ∃ p, part n (n + k) t = .ok p ∧ ∀ c ∈ p, Keeps u c := by
  obtain ⟨-, ⟨p, rfl, rfl, -⟩, -⟩ := h
  obtain ⟨-, ⟨p', rfl, rfl, hp'⟩, -⟩ := h'
  exact ⟨p', part_append p p' t'', hp'⟩

/-- A character has its counterpart. -/
theorem exists_counterpart {R : Char → Char → Prop} {a z : Str}
    (h : List.Forall₂ R a (x ++ m :: z)) :
    ∃ p d q, a = p ++ d :: q ∧ List.Forall₂ R p x ∧ R d m ∧ List.Forall₂ R q z := by
  induction x generalizing a with
  | nil =>
    obtain ⟨d, q, hd, hq, rfl⟩ := List.forall₂_cons_right_iff.mp h
    exact ⟨[], d, q, rfl, .nil, hd, hq⟩
  | cons c x ih =>
    obtain ⟨e, r, he, hr, rfl⟩ := List.forall₂_cons_right_iff.mp h
    obtain ⟨p, d, q, rfl, hp, hd, hq⟩ := ih hr
    exact ⟨e :: p, d, q, rfl, .cons he hp, hd, hq⟩

theorem byteLen_eq_of_forall₂ {a b : Str}
    (h : List.Forall₂ (fun c d => d.utf8Size = c.utf8Size) a b) : byteLen a = byteLen b := by
  induction h with
  | nil => rfl
  | cons hsize _ ih => rw [byteLen_cons, byteLen_cons, hsize, ih]

/-- A mark of a text stands in front of what has none. -/
theorem exists_before {a b : Str} (h : a ++ b = x ++ m :: y) (hb : m ∉ b) :
    ∃ z, a = x ++ m :: z ∧ y = z ++ b := by
  rw [List.append_eq_append_iff] at h
  obtain ⟨w, rfl, rfl⟩ | ⟨w, rfl, hw⟩ := h
  · exact absurd (List.mem_append_right w List.mem_cons_self) hb
  · cases w with
    | nil => exact absurd (hw ▸ List.mem_cons_self : m ∈ [] ++ b) hb
    | cons e w =>
      obtain ⟨rfl, rfl⟩ := List.cons_eq_cons.mp hw
      exact ⟨w, rfl, rfl⟩

/-- A mark in the copy, and the place behind it. -/
theorem Twin.mark_copy (h : Twin u marks t l) (hl : l = x ++ m :: y) (hm : m ∈ marks) :
    ∃ d t', Moves u marks t l (byteLen x) (d :: t') (m :: y) ∧
      Moves u marks (d :: t') (m :: y) m.utf8Size t' y := by
  obtain ⟨a, b, la, lb, rfl, rfl, ha, hsame, hb, hlb⟩ := h
  obtain ⟨z, rfl, rfl⟩ := exists_before hl (hlb m hm)
  obtain ⟨p, d, q, rfl, hp, hsize, hq⟩ := exists_counterpart hsame
  obtain ⟨hkp, hkd, hkq⟩ : (∀ c ∈ p, Keeps u c) ∧ Keeps u d ∧ ∀ c ∈ q, Keeps u c := by
    rw [List.forall_mem_append, List.forall_mem_cons] at ha
    exact ha
  refine ⟨d, q ++ b, ⟨⟨d :: q, b, m :: z, lb, rfl, rfl, ?_, .cons hsize hq, hb, hlb⟩,
    ⟨p, by simp, byteLen_eq_of_forall₂ hp, hkp⟩, ⟨x, by simp, rfl⟩⟩,
    ⟨q, b, z, lb, rfl, rfl, hkq, hq, hb, hlb⟩, ⟨[d], rfl, ?_, ?_⟩, ⟨[m], rfl, ?_⟩⟩
  · exact List.forall_mem_cons.mpr ⟨hkd, hkq⟩
  · rw [byteLen_cons, byteLen_nil, hsize]
    rfl
  · exact List.forall_mem_singleton.mpr hkd
  · rw [byteLen_cons, byteLen_nil]
    rfl

/-- A mark in the text, and the place behind it. -/
theorem Twin.mark_text (h : Twin u marks t l) (ht : t = x ++ m :: y) (hm : m ∈ marks) :
    ∃ d l', Moves u marks t l (byteLen x) (m :: y) (d :: l') ∧
      Moves u marks (m :: y) (d :: l') m.utf8Size y l' := by
  obtain ⟨a, b, la, lb, rfl, rfl, ha, hsame, hb, hlb⟩ := h
  obtain ⟨z, rfl, rfl⟩ := exists_before ht (hb m hm)
  obtain ⟨p, d, q, rfl, hp, hsize, hq⟩ := exists_counterpart hsame.flip
  obtain ⟨hkx, hkm, hkz⟩ : (∀ c ∈ x, Keeps u c) ∧ Keeps u m ∧ ∀ c ∈ z, Keeps u c := by
    rw [List.forall_mem_append, List.forall_mem_cons] at ha
    exact ha
  refine ⟨d, q ++ lb, ⟨⟨m :: z, b, d :: q, lb, rfl, rfl, ?_, .cons hsize hq.flip, hb, hlb⟩,
    ⟨x, by simp, rfl, hkx⟩, ⟨p, by simp, (byteLen_eq_of_forall₂ hp.flip).symm⟩⟩,
    ⟨z, b, q, lb, rfl, rfl, hkz, hq.flip, hb, hlb⟩, ⟨[m], rfl, ?_, ?_⟩, ⟨[d], rfl, ?_⟩⟩
  · exact List.forall_mem_cons.mpr ⟨hkm, hkz⟩
  · rw [byteLen_cons, byteLen_nil]
    rfl
  · exact List.forall_mem_singleton.mpr hkm
  · rw [byteLen_cons, byteLen_nil, hsize]
    rfl

/-- A pattern that begins with a mark is found where both texts can be cut. -/
theorem Twin.find_head (h : Twin u marks t l) (hfind : findByte (m :: pat) l = some n)
    (hm : m ∈ marks) : ∃ d t' l', Moves u marks t l n (d :: t') (m :: l') ∧
      Moves u marks (d :: t') (m :: l') m.utf8Size t' l' := by
  obtain ⟨x, y, hl, rfl⟩ := exists_of_findByte (List.cons_ne_nil m pat) hfind
  obtain ⟨d, t', hmoves⟩ := h.mark_copy (y := pat ++ y) hl hm
  exact ⟨d, t', pat ++ y, hmoves⟩

/-- So is the end of a pattern that ends with one. -/
theorem Moves.find_last (h : Moves u marks t l k t' l')
    (hfind : findByte (pat ++ [m]) l' = some n) (hm : m ∈ marks) :
    ∃ t'' l'', Moves u marks t l (k + n + byteLen (pat ++ [m])) t'' l'' := by
  obtain ⟨x, y, hl, rfl⟩ := exists_of_findByte (by simp) hfind
  obtain ⟨d, t'', hat, hbehind⟩ := h.twin.mark_copy (x := x ++ pat) (y := y) (by simp [hl]) hm
  refine ⟨t'', y, ?_⟩
  have hlen : k + byteLen x + byteLen (pat ++ [m]) = k + byteLen (x ++ pat) + m.utf8Size := by
    simp only [byteLen_append, byteLen_cons, byteLen_nil]
    omega
  rw [hlen]
  exact (h.trans hat).trans hbehind

theorem Twin.find_text (h : Twin u marks t l) (hfind : findByte [m] t = some n)
    (hm : m ∈ marks) : ∃ d t' l', Moves u marks t l n (m :: t') (d :: l') ∧
      Moves u marks (m :: t') (d :: l') m.utf8Size t' l' := by
  obtain ⟨x, y, ht, rfl⟩ := exists_of_findByte (List.cons_ne_nil m []) hfind
  obtain ⟨d, l', hmoves⟩ := h.mark_text ht hm
  exact ⟨d, y, l', hmoves⟩

end Moving

end Clawreform.Lib.Lowercase
