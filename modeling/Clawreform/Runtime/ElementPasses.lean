import Clawreform.Lib.Html
import Clawreform.Lib.Splitting
import Clawreform.Runtime.WebContent

namespace Clawreform.Runtime.ElementPasses

open Clawreform.Lib Clawreform.Lib.Text Clawreform.Lib.Find Clawreform.Lib.Scan
open Clawreform.Lib.Lowercase Clawreform.Lib.Html Clawreform.Lib.Splitting
open Clawreform.Runtime.WebContent

section Passes

/-- What a pass looks for, and what it writes for an element: for the text from its opening tag on,
and for what it holds. -/
structure Target where
  openPrefix : Str
  close : Str
  Writes : Str → Str → Str → Prop

/-- What a pass makes of a text, cut by cut: up to the first opening tag, to the end of this tag, to
the first closing tag. -/
inductive Pass (g : Target) : Str → Str → Prop where
  | rest {t : Str} (none : find g.openPrefix (lower t) = none) : Pass g t t
  | pair {before inner content close t out result : Str}
      (start : find g.openPrefix (lower (before ++ ('<' :: inner ++ '>' :: (content ++
        (close ++ t))))) = some before.length)
      (bracket : '>' ∉ inner)
      (stop : find g.close (lower (content ++ (close ++ t))) = some content.length)
      (same : lower close = g.close)
      (writes : g.Writes ('<' :: inner ++ '>' :: (content ++ (close ++ t))) content result)
      (tail : Pass g t out) :
      Pass g (before ++ ('<' :: inner ++ '>' :: (content ++ (close ++ t))))
        (before ++ result ++ out)

/-- The turns of a loop make the cuts. -/
structure Turns (g : Target) (turn : Str → Str → Nat → Except Stop (Str × Nat)) : Prop where
  none {p q t l : Str} (hp : List.Forall₂ Mirrors p q) (ht : List.Forall₂ Mirrors t l)
    (h : find g.openPrefix (lower t) = none) :
    turn (p ++ t) (q ++ l) (byteLen p) = .ok (t, byteLen (p ++ t))
  pair {p q t l before inner content close result : Str} (hp : List.Forall₂ Mirrors p q)
    (hl : List.Forall₂ Mirrors (before ++ ('<' :: inner ++ '>' :: (content ++ (close ++ t)))) l)
    (start : find g.openPrefix (lower (before ++ ('<' :: inner ++ '>' :: (content ++
      (close ++ t))))) = some before.length)
    (bracket : '>' ∉ inner)
    (stop : find g.close (lower (content ++ (close ++ t))) = some content.length)
    (same : lower close = g.close)
    (writes : g.Writes ('<' :: inner ++ '>' :: (content ++ (close ++ t))) content result) :
    turn (p ++ (before ++ ('<' :: inner ++ '>' :: (content ++ (close ++ t))))) (q ++ l)
      (byteLen p) = .ok (before ++ result,
        byteLen (p ++ (before ++ ('<' :: inner ++ '>' :: (content ++ close)))))

variable {u : Unicode} {g : Target} {r : Rule} {turn : Str → Str → Nat → Except Stop (Str × Nat)}
  {p q t l out k s : Str} {turns : Nat}

/-- The loop makes what the cuts make. -/
theorem scan_of_pass (hturn : Turns g turn) (hpass : Pass g t out)
    (hp : List.Forall₂ Mirrors p q) (ht : List.Forall₂ Mirrors t l) (hturns : byteLen t < turns) :
    scanLoop (byteLen (p ++ t)) (turn (p ++ t) (q ++ l)) turns (byteLen p) = .ok out := by
  induction hpass generalizing p q l turns with
  | @rest t hnone =>
    obtain ⟨turns, rfl⟩ := Nat.exists_eq_succ_of_ne_zero (show turns ≠ 0 by omega)
    rw [scanLoop]
    split
    · rename_i hlt
      have hpos : turns ≠ 0 := by
        rw [byteLen_append] at hlt
        omega
      obtain ⟨turns, rfl⟩ := Nat.exists_eq_succ_of_ne_zero hpos
      rw [hturn.none hp ht hnone]
      simp only [bind, Except.bind]
      rw [scanLoop, if_neg (Nat.lt_irrefl _)]
      simp only [pure, Except.pure, List.append_nil]
    · rename_i hlt
      rw [byteLen_append] at hlt
      obtain rfl : t = [] := Slices.eq_nil_of_byteLen (by omega)
      rfl
  | @pair before inner content close t out result start bracket stop same writes tail ih =>
    obtain ⟨turns, rfl⟩ := Nat.exists_eq_succ_of_ne_zero (show turns ≠ 0 by omega)
    have hmove := hturn.pair hp ht start bracket stop same writes
    have hfront : before ++ ('<' :: inner ++ '>' :: (content ++ (close ++ t))) =
        (before ++ ('<' :: inner ++ '>' :: (content ++ close))) ++ t := by simp
    have hpos : 0 < byteLen (before ++ ('<' :: inner ++ '>' :: (content ++ close))) :=
      Slices.byteLen_pos (by simp)
    rw [scanLoop, hmove]
    rw [hfront] at ht hturns ⊢
    rw [byteLen_append] at hturns
    obtain ⟨lf, lt, rfl, hf, ht⟩ := exists_mirror_append ht
    have hnext := ih (List.rel_append hp hf) ht (by omega : byteLen t < turns)
    rw [if_pos (by rw [byteLen_append, byteLen_append]; omega)]
    simp only [bind, Except.bind]
    simp only [List.append_assoc] at hnext ⊢
    rw [hnext]
    simp [pure, Except.pure]

/-- A loop over a text whose characters keep their length. -/
theorem loop_of_pass (hturn : Turns g turn) (hkeeps : ∀ c ∈ t, Keeps u c) (hpass : Pass g t out) :
    scanLoop (byteLen t) (turn t (toLowercase u t)) (byteLen t + 1) 0 = .ok out :=
  scan_of_pass hturn hpass .nil (mirrors_toLowercase hkeeps) (Nat.lt_succ_self _)

/-- Text in which no opening tag begins stays. -/
theorem Pass.skip (hs : Skips g.openPrefix s) (h : Pass g t out) : Pass g (s ++ t) (s ++ out) := by
  induction h with
  | @rest t hnone =>
    refine .rest ?_
    rw [lower_append, hs, hnone]
    rfl
  | @pair before inner content close t out result start bracket stop same writes tail _ =>
    have hpair := @Pass.pair g (s ++ before) inner content close t out result ?_ bracket stop same
      writes tail
    · simpa using hpair
    · rw [List.append_assoc, lower_append, hs, start, Option.map_some, List.length_append,
        Nat.add_comm]

/-- The elements that are met are the own ones, and hold no tag that ends them. -/
def Own (g : Target) (hit : Str → Str → Bool) (conv : Str → Page → Page) : Local where
  char c := c ≠ '<'
  tag body := Skips g.openPrefix ('<' :: (body ++ ['>']))
  element n a c ch :=
    (hit n a = true → g.openPrefix <+: lower ('<' :: (n ++ a ++ ['>'])) ∧ '>' ∉ n ++ a ∧
      Skips g.close (render ch) ∧ lower ('<' :: '/' :: (c ++ ['>'])) = g.close ∧
      ∀ k, g.Writes ('<' :: (n ++ a) ++ '>' :: (render ch ++ k)) (render ch)
        (render (conv a ch))) ∧
    (hit n a = false → Skips g.openPrefix ('<' :: (n ++ a ++ ['>'])) ∧
      Skips g.openPrefix ('<' :: '/' :: (c ++ ['>'])))

theorem find_of_start {pat : Str} (h : pat <+: s) : find pat s = some 0 := by
  cases s with
  | nil => rw [List.prefix_nil.mp h]; rfl
  | cons c s => exact if_pos h

/-- A pass over a page transforms it. -/
theorem pass_render {hit : Str → Str → Bool} {conv : Str → Page → Page} {page : Page} {pat : Str}
    (hopen : g.openPrefix = '<' :: pat) (hpage : Everywhere (Own g hit conv) page)
    (hk : Pass g k out) :
    Pass g (render page ++ k) (render (transform hit conv page) ++ out) := by
  induction page generalizing k out with
  | nil => exact hk
  | char c rest ih =>
    have hne : c ≠ '<' := hpage.1
    have hskip : Skips g.openPrefix [c] := by
      rw [hopen]
      exact skips_of_notMem (by simpa using hne.symm)
    exact (ih hpage.2 hk).skip hskip
  | tag body rest ih =>
    have hpass := (ih hpage.2 hk).skip hpage.1
    simpa [render, transform] using hpass
  | element n a c ch rest ihc ihr =>
    obtain ⟨⟨hown, hother⟩, hch, hrest⟩ := hpage
    have htail := ihr hrest hk
    rw [transform]
    cases hhit : hit n a with
    | true =>
      obtain ⟨hpre, hgt, hskip, hsame, hwrites⟩ := hown hhit
      have hstart : find g.openPrefix (lower ([] ++ ('<' :: (n ++ a) ++ '>' ::
          (render ch ++ ('<' :: '/' :: (c ++ ['>']) ++ (render rest ++ k)))))) =
            some ([] : Str).length := by
        refine find_of_start (hpre.trans ?_)
        rw [List.nil_append]
        exact ⟨lower (render ch ++ ('<' :: '/' :: (c ++ ['>']) ++ (render rest ++ k))),
          by simp [lower]⟩
      have hstop : find g.close (lower (render ch ++ ('<' :: '/' :: (c ++ ['>']) ++
          (render rest ++ k)))) = some (render ch).length := by
        rw [lower_append, hskip, lower_append, hsame, find_of_start (List.prefix_append _ _),
          Option.map_some, Nat.zero_add]
      have hpair := Pass.pair hstart hgt hstop hsame (hwrites _) htail
      rw [if_pos rfl]
      simpa [render] using hpair
    | false =>
      obtain ⟨hskipOpen, hskipClose⟩ := hother hhit
      have hinside := (ihc hch (htail.skip hskipClose)).skip hskipOpen
      rw [if_neg (by simp)]
      simpa [render] using hinside

end Passes

section Rules

variable {u : Unicode} {r : Rule} {p q t l pre stopTag before inner content close : Str}

/-- Where the cuts lie in bytes. -/
theorem cuts (hp : List.Forall₂ Mirrors p q)
    (hl : List.Forall₂ Mirrors (before ++ ('<' :: inner ++ '>' :: (content ++ (close ++ t)))) l)
    (hpre : ∀ x ∈ pre, x.toNat < 128) (hstopTag : ∀ x ∈ stopTag, x.toNat < 128)
    (start : find pre (lower (before ++ ('<' :: inner ++ '>' :: (content ++ (close ++ t))))) =
      some before.length)
    (bracket : '>' ∉ inner)
    (stop : find stopTag (lower (content ++ (close ++ t))) = some content.length)
    (same : lower close = stopTag) :
    ∃ absStart contentStart behind,
      findByte pre l = some (byteLen before) ∧ absStart = byteLen p + byteLen before ∧
      part (byteLen p) absStart
        (p ++ (before ++ ('<' :: inner ++ '>' :: (content ++ (close ++ t))))) = .ok before ∧
      rest absStart (p ++ (before ++ ('<' :: inner ++ '>' :: (content ++ (close ++ t))))) =
        .ok ('<' :: inner ++ '>' :: (content ++ (close ++ t))) ∧
      findByte ['>'] ('<' :: inner ++ '>' :: (content ++ (close ++ t))) =
        some (byteLen ('<' :: inner)) ∧
      contentStart = absStart + byteLen ('<' :: inner) + 1 ∧
      rest contentStart (q ++ l) = .ok behind ∧
      findByte stopTag behind = some (byteLen content) ∧
      part contentStart (contentStart + byteLen content)
        (p ++ (before ++ ('<' :: inner ++ '>' :: (content ++ (close ++ t))))) = .ok content ∧
      contentStart + byteLen content + byteLen stopTag =
        byteLen (p ++ (before ++ ('<' :: inner ++ '>' :: (content ++ close)))) := by
  have hplace : byteLen p + byteLen before + byteLen ('<' :: inner) + 1 =
      byteLen (p ++ (before ++ ('<' :: inner ++ ['>']))) := by
    simp only [byteLen_append, byteLen_cons, byteLen_nil]
    have hsize : '>'.utf8Size = 1 := rfl
    omega
  obtain ⟨head, behind, rfl, hhead, hbehind⟩ : ∃ head behind, l = head ++ behind ∧
      List.Forall₂ Mirrors (before ++ ('<' :: inner ++ ['>'])) head ∧
      List.Forall₂ Mirrors (content ++ (close ++ t)) behind :=
    exists_mirror_append (by simpa using hl)
  refine ⟨byteLen p + byteLen before, byteLen p + byteLen before + byteLen ('<' :: inner) + 1,
    behind, findByte_mirror hpre hl start, rfl, part_append p before _, ?_,
    findByte_notMem (by simpa using bracket) _, rfl, ?_, findByte_mirror hstopTag hbehind stop,
    ?_, ?_⟩
  · rw [← byteLen_append, ← List.append_assoc]
    exact rest_append _ _
  · have hboth : List.Forall₂ Mirrors (p ++ (before ++ ('<' :: inner ++ ['>']))) (q ++ head) :=
      List.rel_append hp hhead
    rw [hplace, ← List.append_assoc q]
    exact rest_mirror hboth behind
  · have hpart := part_append (p ++ (before ++ ('<' :: inner ++ ['>']))) content (close ++ t)
    rw [hplace]
    simpa using hpart
  · rw [hplace, ← same, byteLen_lower]
    simp only [byteLen_append, byteLen_cons, byteLen_nil]
    omega

def inlineTarget (r : Rule) : Target where
  openPrefix := r.openPrefix
  close := r.close
  Writes _ content result := result = r.mdOpen ++ content ++ r.mdClose

theorem turns_inline (hopen : ∀ x ∈ r.openPrefix, x.toNat < 128)
    (hclose : ∀ x ∈ r.close, x.toNat < 128) :
    Turns (inlineTarget r) fun html low => inlineTurn html low r where
  none hp ht h := by
    rw [inlineTurn, rest_mirror hp]
    simp only [bind, Except.bind]
    rw [findByte_mirror_none hopen ht h, rest_append]
    rfl
  pair hp hl start bracket stop same writes := by
    obtain ⟨absStart, contentStart, behind, hstart, habs, hbefore, htag, hgt, hplace, hcopy, hstop,
      hcontent, hnext⟩ := cuts hp hl hopen hclose start bracket stop same
    have hresult : _ = r.mdOpen ++ _ ++ r.mdClose := writes
    rw [inlineTurn, rest_mirror hp]
    simp only [bind, Except.bind, inlineTarget] at *
    rw [hstart]
    simp only [← habs, hbefore, htag, hgt, ← hplace, hcopy, hstop, hcontent]
    rw [hnext, hresult]
    simp [pure, Except.pure]

def linkTarget (u : Unicode) : Target where
  openPrefix := "<a ".toList
  close := "</a>".toList
  Writes tag content result := ∃ url, extractAttribute u tag "href".toList = .ok (some url) ∧
    result = ['['] ++ trim (stripAllTags content) ++ "](".toList ++ url ++ [')']

theorem turns_link : Turns (linkTarget u) (linkTurn u) where
  none hp ht h := by
    have hopen : ∀ x ∈ "<a ".toList, x.toNat < 128 := by simp
    rw [linkTurn, rest_mirror hp]
    simp only [bind, Except.bind]
    rw [findByte_mirror_none hopen ht h, rest_append]
    rfl
  pair hp hl start bracket stop same writes := by
    have hopen : ∀ x ∈ "<a ".toList, x.toNat < 128 := by simp
    have hclose : ∀ x ∈ "</a>".toList, x.toNat < 128 := by simp
    obtain ⟨absStart, contentStart, behind, hstart, habs, hbefore, htag, hgt, hplace, hcopy, hstop,
      hcontent, hnext⟩ := cuts hp hl hopen hclose start bracket stop same
    obtain ⟨url, hurl, hresult⟩ := writes
    rw [linkTurn, rest_mirror hp]
    simp only [bind, Except.bind]
    rw [hstart]
    simp only [← habs, hbefore, htag, hurl, hgt, ← hplace, hcopy, hstop, hcontent]
    rw [show contentStart + _ + 4 = contentStart + _ + byteLen "</a>".toList from rfl, hnext,
      hresult]
    rfl

end Rules

end Clawreform.Runtime.ElementPasses
