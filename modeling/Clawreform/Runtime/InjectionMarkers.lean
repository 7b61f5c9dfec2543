import Clawreform.Lib.Lowercase
import Clawreform.Lib.Infix

namespace Clawreform.Runtime.InjectionMarkers

open Clawreform.Lib.Text Clawreform.Lib.Find Clawreform.Lib.Scan Clawreform.Lib.Lowercase
open Clawreform.Lib.Replacing Clawreform.Lib

section Code

def injectionMarkers : List Str :=
  ["<|system|>".toList, "<|im_start|>".toList, "<|im_end|>".toList, "### SYSTEM:".toList,
    "### System Prompt:".toList, "[SYSTEM]".toList, "<<SYS>>".toList, "<</SYS>>".toList,
    "IGNORE PREVIOUS INSTRUCTIONS".toList, "Ignore all previous instructions".toList,
    "ignore the above".toList, "disregard previous".toList]

def notice : Str := "[injection marker removed]".toList

/-- The text from an offset on, with every occurrence of the marker in its lower-cased copy
replaced. -/
def replaceLoop (text low markerLower : Str) (markerLen : Nat) : Nat → Nat → Except Stop Str
  | 0, _ => .error .endless
  | turns + 1, searchPos => do
    let tail ← rest searchPos low
    match findByte markerLower tail with
    | some found =>
      let absPos := searchPos + found
      let piece ← part searchPos absPos text
      let more ← replaceLoop text low markerLower markerLen turns (absPos + markerLen)
      pure (piece ++ (notice ++ more))
    | none => rest searchPos text

/-- `low` is the lower case of the whole content, computed once. -/
def removeMarker (u : Unicode) (low result marker : Str) : Except Stop Str :=
  let markerLower := toLowercase u marker
  if contains low markerLower then
    let resultLower := toLowercase u result
    replaceLoop result resultLower markerLower (byteLen marker) (byteLen resultLower + 1) 0
  else pure result

def removeMarkers (u : Unicode) (low : Str) : List Str → Str → Except Stop Str
  | [], result => pure result
  | marker :: markers, result => do
    let cleaned ← removeMarker u low result marker
    removeMarkers u low markers cleaned

def stripInjectionMarkers (u : Unicode) (content : Str) : Except Stop Str :=
  removeMarkers u (toLowercase u content) injectionMarkers content

end Code

section Ascii

variable {u : Unicode} {s before before' a b : Str}

/-- Two texts in which one finds the same ASCII. -/
def Alike (s t : Str) : Prop :=
  List.Forall₂ (fun c d : Char => ∀ x : Char, x.toNat < 128 → (x = c ↔ x = d)) s t

theorem lowercaseFrom_ascii (before : Str) (h : ∀ c ∈ s, c.toNat < 128) :
    lowercaseFrom u before s = lower s := by
  induction s generalizing before with
  | nil => rfl
  | cons c s ih =>
    obtain ⟨hc, hs⟩ := List.forall_mem_cons.mp h
    have hsigma : c ≠ 'Σ' := by
      rintro rfl
      exact absurd hc (by decide)
    rw [lowercaseFrom, if_neg hsigma, u.lower_ascii c hc, ih (c :: before) hs]
    rfl

theorem alike_refl (s : Str) : Alike s s := List.forall₂_same.mpr fun _ _ _ _ => Iff.rfl

theorem Alike.symm {s t : Str} (h : Alike s t) : Alike t s :=
  (List.Forall₂.imp (fun _ _ hcd x hx => (hcd x hx).symm) h).flip

/-- What stands in front decides on the kind of a sigma only. -/
theorem lowercaseFrom_alike (before before' s : Str) :
    Alike (lowercaseFrom u before s) (lowercaseFrom u before' s) := by
  induction s generalizing before before' with
  | nil => exact .nil
  | cons c s ih =>
    rw [lowercaseFrom, lowercaseFrom]
    refine List.rel_append ?_ (ih (c :: before) (c :: before'))
    by_cases hc : c = 'Σ'
    · rw [if_pos hc, if_pos hc]
      refine .cons (fun x hx => ?_) .nil
      have hsmall : ∀ d : Char, (d = 'ς' ∨ d = 'σ') → x ≠ d := by
        rintro d (rfl | rfl) rfl
        · exact absurd hx (by decide)
        · exact absurd hx (by decide)
      have hkind : ∀ w : Bool, (if w then 'ς' else 'σ') = 'ς' ∨ (if w then 'ς' else 'σ') = 'σ' := by
        decide
      exact iff_of_false (hsmall _ (hkind _)) (hsmall _ (hkind _))
    · rw [if_neg hc, if_neg hc]
      exact alike_refl _

theorem alike_of_mirrors {t l : Str} (h : List.Forall₂ Mirrors t l) : Alike l (lower t) := by
  refine List.forall₂_map_right_iff.mpr ?_
  exact (h.imp fun _ _ hcd => hcd.2).flip

/-- The lower case of a text whose first characters keep their length. -/
theorem toLowercase_alike (ha : ∀ c ∈ a, Keeps u c) :
    Alike (toLowercase u (a ++ b)) (lower a ++ toLowercase u b) := by
  obtain ⟨la, hla, hmirrors⟩ := lowercaseFrom_kept [] b ha
  rw [toLowercase, hla]
  exact List.rel_append (alike_of_mirrors hmirrors) (lowercaseFrom_alike _ _ b)

theorem Alike.prefix_iff {s t pat : Str} (h : Alike s t) (hpat : ∀ x ∈ pat, x.toNat < 128) :
    pat <+: s ↔ pat <+: t := by
  induction h generalizing pat with
  | nil => rfl
  | @cons c d s t hcd _ ih =>
    cases pat with
    | nil => simp
    | cons x pat =>
      obtain ⟨hx, hpat⟩ := List.forall_mem_cons.mp hpat
      rw [List.cons_prefix_cons, List.cons_prefix_cons, hcd x hx, ih hpat]

theorem Alike.infix_iff {s t pat : Str} (h : Alike s t) (hpat : ∀ x ∈ pat, x.toNat < 128) :
    pat <:+: s ↔ pat <:+: t := by
  induction h with
  | nil => rfl
  | cons hcd hst ih =>
    rw [List.infix_cons_iff, List.infix_cons_iff, ih,
      Alike.prefix_iff (List.Forall₂.cons hcd hst) hpat]

/-- An occurrence stands at the same place in both. -/
theorem Alike.exists_split {s t pat x y : Str} (h : Alike s t) (hpat : ∀ x ∈ pat, x.toNat < 128)
    (hs : s = x ++ (pat ++ y)) : ∃ x' y', t = x' ++ (pat ++ y') ∧ x'.length = x.length := by
  induction x generalizing s t with
  | nil =>
    obtain ⟨z, rfl⟩ := (h.prefix_iff hpat).mp ⟨y, hs.symm⟩
    exact ⟨[], z, rfl, rfl⟩
  | cons c x ih =>
    subst hs
    obtain ⟨d, t', -, ht', rfl⟩ := List.forall₂_cons_left_iff.mp h
    obtain ⟨x', y', rfl, hlen⟩ := ih ht' rfl
    exact ⟨d :: x', y', rfl, congrArg (· + 1) hlen⟩

end Ascii

section Loop

variable {u : Unicode} {p q b lp lq lb tail mark : Str} {turns : Nat}

/-- While every marker ends where characters keep their length, the offsets of the copy are those
of the text, and the loop replaces exactly the markers. -/
theorem replaceLoop_ok (hmark : mark ≠ []) (hascii : ∀ x ∈ mark, x.toNat < 128)
    (hp : byteLen lp = byteLen p) (hq : List.Forall₂ Mirrors q lq) (hb : Alike lb tail)
    (hends : EndsBefore mark (lower q) tail) (hturns : byteLen q < turns) :
    ∃ q', Replaced Char.toLower mark notice tail q q' ∧
      replaceLoop (p ++ (q ++ b)) (lp ++ (lq ++ lb)) mark (byteLen mark) turns (byteLen p) =
        .ok (q' ++ b) := by
  induction turns generalizing p q lp lq with
  | zero => exact absurd hturns (Nat.not_lt_zero _)
  | succ turns ih =>
    have halike : Alike (lq ++ lb) (lower q ++ tail) := List.rel_append (alike_of_mirrors hq) hb
    have htail : rest (byteLen p) (lp ++ (lq ++ lb)) = .ok (lq ++ lb) := by
      rw [← hp, rest_append]
    rw [replaceLoop, htail, ok_bind]
    cases hfind : findByte mark (lq ++ lb) with
    | none =>
      refine ⟨q, .done ?_, rest_append p (q ++ b)⟩
      have hnone := find_eq_none_iff.mp (Option.map_eq_none_iff.mp hfind)
      exact fun hm => hnone ((halike.infix_iff hascii).mpr hm)
    | some n =>
      obtain ⟨k, hk, rfl⟩ := Option.map_eq_some_iff.mp hfind
      obtain ⟨x, y, hsplit, rfl, hfirst⟩ := exists_of_find hmark hk
      rw [List.append_assoc] at hsplit
      obtain ⟨x', y', hsplit', hlen⟩ := halike.exists_split hascii hsplit
      obtain ⟨z, hz⟩ := List.prefix_of_prefix_length_le
        (⟨y', by rw [hsplit', List.append_assoc]⟩ : x' ++ mark <+: lower q ++ tail)
        (List.prefix_append (lower q) tail) (by
          rw [List.length_append]
          exact hends.length_le hmark hsplit')
      rw [List.append_assoc] at hz
      obtain ⟨q₁, q', rfl, rfl, hq'⟩ := List.map_eq_append_iff.mp hz.symm
      obtain ⟨w, q₂, rfl, hw, rfl⟩ := List.map_eq_append_iff.mp hq'
      obtain ⟨l₁, l', rfl, h₁, h'⟩ := exists_mirror_append hq
      obtain ⟨lw, l₂, rfl, hlw, h₂⟩ := exists_mirror_append h'
      have hx : l₁ = x := by
        refine (List.append_inj (?_ : l₁ ++ (lw ++ l₂ ++ lb) = x ++ (mark ++ y)) ?_).1
        · rw [← List.append_assoc, hsplit]
        · rw [← h₁.length_eq, ← hlen, List.length_map]
      have hfound : byteLen ((l₁ ++ (lw ++ l₂) ++ lb).take x.length) = byteLen q₁ := by
        rw [← hx, List.append_assoc, List.take_left, byteLen_mirror h₁]
      have hlong : byteLen w = byteLen mark := by
        rw [← hw]
        exact (byteLen_lower w).symm
      have hnew : ¬ mark <:+: q₁.map Char.toLower := by
        have hold : ¬ mark <:+: l₁ := by
          rw [hx]
          exact fun hm => hfirst (hm.trans (List.prefix_append x _).isInfix)
        exact fun hm => hold (((alike_of_mirrors h₁).infix_iff hascii).mpr hm)
      have hpiece : part (byteLen p) (byteLen p + byteLen q₁) (p ++ (q₁ ++ (w ++ q₂) ++ b)) =
          .ok q₁ := by
        rw [List.append_assoc]
        exact part_append p q₁ _
      have hpos : byteLen p + byteLen q₁ + byteLen mark = byteLen (p ++ (q₁ ++ w)) := by
        rw [byteLen_append, byteLen_append, hlong, Nat.add_assoc]
      have hshorter : byteLen q₂ < turns := by
        have := Slices.byteLen_pos hmark
        simp only [byteLen_append] at hturns
        omega
      have hlp : byteLen (lp ++ (l₁ ++ lw)) = byteLen (p ++ (q₁ ++ w)) := by
        simp only [byteLen_append, hp, byteLen_mirror h₁, byteLen_mirror hlw]
      have hends₂ : EndsBefore mark (lower q₂) tail := by
        rw [lower_append, lower_append] at hends
        exact hends.suffix ((List.suffix_append _ _).trans (List.suffix_append _ _))
      obtain ⟨q₂', hreplaced, hloop⟩ := ih hlp h₂ hends₂ hshorter
      refine ⟨q₁ ++ (notice ++ q₂'), .cut hw hnew hreplaced, ?_⟩
      dsimp only
      rw [hfound, hpiece, ok_bind, hpos]
      have htext : p ++ (q₁ ++ (w ++ q₂) ++ b) = p ++ (q₁ ++ w) ++ (q₂ ++ b) := by simp
      have hcopy : lp ++ (l₁ ++ (lw ++ l₂) ++ lb) = lp ++ (l₁ ++ lw) ++ (l₂ ++ lb) := by simp
      rw [htext, hcopy, hloop, ok_bind, List.append_assoc, List.append_assoc]
      rfl

end Loop

section Passes

variable {u : Unicode} {a a' a'' b low marker : Str} {markers : List Str}

/-- A marker is ASCII, and the notice that stands for it does not touch it. -/
structure Markable (marker : Str) : Prop where
  ascii : ∀ x ∈ marker, x.toNat < 128
  nonempty : marker ≠ []
  apart : Apart (lower marker) (lower notice)

theorem markable_of_mem (h : marker ∈ injectionMarkers) : Markable marker := by
  have hall : injectionMarkers.all (fun m => m.all (fun x => x.toNat < 128) &&
      !m.isEmpty && isApart (lower m) (lower notice)) = true := by
    delta injectionMarkers notice
    repeat rw [String.toList_ofList]
    decide +kernel
  have hmarker := List.all_eq_true.mp hall marker h
  simp only [Bool.and_eq_true, List.all_eq_true, decide_eq_true_eq, Bool.not_eq_true',
    List.isEmpty_eq_false_iff] at hmarker
  exact ⟨hmarker.1.1, hmarker.1.2, apart_of_isApart hmarker.2⟩

theorem Markable.toLowercase (h : Markable marker) (u : Unicode) :
    toLowercase u marker = lower marker := lowercaseFrom_ascii [] h.ascii

theorem Markable.lower_ascii (h : Markable marker) : ∀ x ∈ lower marker, x.toNat < 128 := by
  intro x hx
  obtain ⟨c, hc, rfl⟩ := List.mem_map.mp hx
  refine toNat_of_utf8Size ?_
  rw [utf8Size_toLower]
  exact utf8Size_of_ascii (h.ascii c hc)

theorem Markable.lower_ne_nil (h : Markable marker) : lower marker ≠ [] := by
  intro hnil
  exact h.nonempty (List.map_eq_nil_iff.mp hnil)

theorem notice_ascii : ∀ c ∈ notice, c.toNat < 128 := by
  have hall : notice.all (fun c => c.toNat < 128) = true := by decide
  exact fun c hc => decide_eq_true_iff.mp (List.all_eq_true.mp hall c hc)

/-- From one text to another no marker comes in, neither in it nor across its end. -/
def Cleans (tail a a' : Str) : Prop :=
  ∀ marker, Markable marker → (lower marker <:+: lower a' → lower marker <:+: lower a) ∧
    (EndsBefore (lower marker) (lower a) tail → EndsBefore (lower marker) (lower a') tail)

theorem cleans_refl (tail a : Str) : Cleans tail a a := fun _ _ => ⟨id, id⟩

theorem Cleans.trans {tail : Str} (h : Cleans tail a a') (h' : Cleans tail a' a'') :
    Cleans tail a a'' := fun marker hm =>
  ⟨fun hinf => (h marker hm).1 ((h' marker hm).1 hinf),
    fun hends => (h' marker hm).2 ((h marker hm).2 hends)⟩

theorem removeMarker_ok (hm : Markable marker) (ha : ∀ c ∈ a, Keeps u c)
    (hends : EndsBefore (lower marker) (lower a) (toLowercase u b))
    (hlow : lower marker <:+: lower a → lower marker <:+: low) :
    ∃ a', removeMarker u low (a ++ b) marker = .ok (a' ++ b) ∧ (∀ c ∈ a', Keeps u c) ∧
      Cleans (toLowercase u b) a a' ∧ ¬ lower marker <:+: lower a' := by
  rw [removeMarker, hm.toLowercase u]
  dsimp only
  by_cases hcontains : contains low (lower marker) = true
  · rw [if_pos hcontains]
    obtain ⟨la, hla, hmirrors⟩ := lowercaseFrom_kept [] b ha
    have hcopy : toLowercase u (a ++ b) = la ++ lowercaseFrom u (a.reverse ++ []) b := hla
    have hturns : byteLen a < byteLen (toLowercase u (a ++ b)) + 1 := by
      rw [hcopy, byteLen_append, byteLen_mirror hmirrors]
      omega
    obtain ⟨a', hreplaced, hloop⟩ := @replaceLoop_ok [] a b [] la
      (lowercaseFrom u (a.reverse ++ []) b) (toLowercase u b) (lower marker) _ hm.lower_ne_nil
      hm.lower_ascii rfl hmirrors (lowercaseFrom_alike _ _ b) hends hturns
    rw [List.nil_append, List.nil_append, byteLen_nil, ← hcopy, byteLen_lower] at hloop
    refine ⟨a', hloop, ?_, fun other hother => ⟨?_, ?_⟩, hreplaced.gone hm.apart⟩
    · exact hreplaced.forall (fun c hc => keeps_of_ascii (notice_ascii c hc)) ha
    · exact hreplaced.infix_of hother.apart
    · exact hreplaced.endsBefore hother.apart
  · rw [if_neg hcontains]
    refine ⟨a, rfl, ha, cleans_refl _ a, fun hinf => hcontains ?_⟩
    rw [contains, Option.isSome_iff_ne_none]
    exact fun hnone => find_eq_none_iff.mp hnone (hlow hinf)

theorem removeMarkers_ok (hmarkers : ∀ marker ∈ markers, Markable marker)
    (ha : ∀ c ∈ a, Keeps u c)
    (hends : ∀ marker ∈ markers, EndsBefore (lower marker) (lower a) (toLowercase u b))
    (hlow : ∀ marker ∈ markers, lower marker <:+: lower a → lower marker <:+: low) :
    ∃ a', removeMarkers u low markers (a ++ b) = .ok (a' ++ b) ∧ (∀ c ∈ a', Keeps u c) ∧
      Cleans (toLowercase u b) a a' ∧ ∀ marker ∈ markers, ¬ lower marker <:+: lower a' := by
  induction markers generalizing a with
  | nil => exact ⟨a, rfl, ha, cleans_refl _ a, fun _ h => absurd h List.not_mem_nil⟩
  | cons marker markers ih =>
    obtain ⟨hmarker, hmarkers⟩ := List.forall_mem_cons.mp hmarkers
    obtain ⟨hend, hends⟩ := List.forall_mem_cons.mp hends
    obtain ⟨hfirst, hlow⟩ := List.forall_mem_cons.mp hlow
    obtain ⟨a', hpass, ha', hcleans, hgone⟩ := removeMarker_ok hmarker ha hend hfirst
    obtain ⟨a'', hpasses, ha'', hcleans', hgone'⟩ := ih hmarkers ha'
      (fun m hm => (hcleans m (hmarkers m hm)).2 (hends m hm))
      (fun m hm h => hlow m hm ((hcleans m (hmarkers m hm)).1 h))
    refine ⟨a'', ?_, ha'', hcleans.trans hcleans', List.forall_mem_cons.mpr ⟨?_, hgone'⟩⟩
    · rw [removeMarkers, hpass, ok_bind, hpasses]
    · exact fun h => hgone ((hcleans' marker hmarker).1 h)

theorem removeMarkers_none (h : ∀ marker ∈ markers, contains low (toLowercase u marker) = false)
    (result : Str) : removeMarkers u low markers result = .ok result := by
  induction markers with
  | nil => rfl
  | cons marker markers ih =>
    obtain ⟨hfirst, hmore⟩ := List.forall_mem_cons.mp h
    have hpass : removeMarker u low result marker = .ok result := by
      rw [removeMarker, hfirst]
      rfl
    rw [removeMarkers, hpass, ok_bind, ih hmore]

end Passes

section Main

variable {u : Unicode} {content out : Str}

/-- A marker stands in a text, in some letter case. -/
def Marked (u : Unicode) (s : Str) : Prop :=
  ∃ marker ∈ injectionMarkers, toLowercase u marker <:+: toLowercase u s

/-- In the lower-cased copy every marker ends before the first character whose lower case has
another length. -/
def Cuttable (u : Unicode) (content : Str) : Prop :=
  ∃ a b, content = a ++ b ∧ (∀ c ∈ a, Keeps u c) ∧ ∀ marker ∈ injectionMarkers, ∀ x y,
    toLowercase u content = x ++ (toLowercase u marker ++ y) →
      x.length + marker.length ≤ a.length

theorem cuttable_endsBefore {a b marker : Str} (hm : Markable marker) (ha : ∀ c ∈ a, Keeps u c)
    (h : ∀ x y, toLowercase u (a ++ b) = x ++ (toLowercase u marker ++ y) →
      x.length + marker.length ≤ a.length) :
    EndsBefore (lower marker) (lower a) (toLowercase u b) := by
  have hplace : ∀ x y, lower a ++ toLowercase u b = x ++ (lower marker ++ y) →
      x.length + marker.length ≤ a.length := by
    intro x y hxy
    obtain ⟨x', y', hx', hlen⟩ := (toLowercase_alike ha).symm.exists_split hm.lower_ascii hxy
    rw [← hlen]
    rw [← hm.toLowercase u] at hx'
    exact h x' y' hx'
  have hlong : 0 < marker.length := List.length_pos_of_ne_nil hm.nonempty
  constructor
  · rintro ⟨x, y, hxy⟩
    have hle := hplace (lower a ++ x) y (by rw [← hxy]; simp)
    rw [List.length_append, lower, List.length_map] at hle
    omega
  · rintro s t hst ht ⟨z, hz⟩ ⟨y, hy⟩
    have hle := hplace z y (by rw [hst, ← hz, ← hy]; simp)
    have hwhole := congrArg List.length hst
    have hfront := congrArg List.length hz
    have := List.length_pos_of_ne_nil ht
    simp only [lower, List.length_map, List.length_append] at hwhole hfront
    omega

/-- A text that can be cut comes back without a marker in any letter case, and as it was when
there was none. -/
theorem stripInjectionMarkers_ok (u : Unicode) (content : Str) (h : Cuttable u content) :
    ∃ out, stripInjectionMarkers u content = .ok out ∧ ¬ Marked u out ∧
      (¬ Marked u content → out = content) := by
  obtain ⟨a, b, rfl, ha, hplaces⟩ := h
  have hends : ∀ marker ∈ injectionMarkers,
      EndsBefore (lower marker) (lower a) (toLowercase u b) := fun marker hm =>
    cuttable_endsBefore (markable_of_mem hm) ha (hplaces marker hm)
  have hlow : ∀ marker ∈ injectionMarkers, lower marker <:+: lower a →
      lower marker <:+: toLowercase u (a ++ b) := by
    intro marker hm hinf
    refine ((toLowercase_alike ha).infix_iff (markable_of_mem hm).lower_ascii).mpr ?_
    exact hinf.trans (List.prefix_append _ _).isInfix
  obtain ⟨a', hstrip, ha', hcleans, hgone⟩ :=
    removeMarkers_ok (fun marker => markable_of_mem) ha hends hlow
  refine ⟨a' ++ b, hstrip, ?_, fun hclean => ?_⟩
  · rintro ⟨marker, hm, hinf⟩
    have hmarker := markable_of_mem hm
    rw [hmarker.toLowercase u, (toLowercase_alike ha').infix_iff hmarker.lower_ascii,
      ((hcleans marker hmarker).2 (hends marker hm)).infix_iff] at hinf
    exact hgone marker hm hinf
  · have hnone : ∀ marker ∈ injectionMarkers,
        contains (toLowercase u (a ++ b)) (toLowercase u marker) = false := by
      intro marker hm
      rw [contains, Option.isSome_eq_false_iff, Option.isNone_iff_eq_none, find_eq_none_iff]
      exact fun hinf => hclean ⟨marker, hm, hinf⟩
    have hsame := removeMarkers_none hnone (a ++ b)
    exact Except.ok.inj (hstrip.symm.trans hsame)

/-- A text all of whose characters keep their length. -/
theorem cuttable_of_keeps (h : ∀ c ∈ content, Keeps u c) : Cuttable u content := by
  refine ⟨content, [], (List.append_nil content).symm, h, fun marker hm x y hxy => ?_⟩
  have hlength := congrArg List.length hxy
  rw [(markable_of_mem hm).toLowercase u, ← (mirrors_toLowercase h).length_eq] at hlength
  simp only [List.length_append, lower, List.length_map] at hlength
  omega

/-- The tables around the dotted capital, whose lower case is longer by a byte. -/
def dottedTables : Unicode where
  lower c := if c = 'İ' then ['i', '\u0307'] else [c.toLower]
  wordEnd _ _ := false
  lower_ascii c h := by
    refine if_neg ?_
    rintro rfl
    exact absurd h (by decide)
  lower_other c d hmem hascii hother := by
    split at hmem
    · obtain rfl | hmem := List.mem_cons.mp hmem
      · exact absurd hother (by decide)
      · obtain rfl := List.mem_singleton.mp hmem
        exact absurd hascii (by decide)
    · obtain rfl := List.mem_singleton.mp hmem
      exact toLower_eq_self hother

theorem stripInjectionMarkers_ok_quoted :
    ∃ out, stripInjectionMarkers dottedTables "he said [System] now".toList = .ok out ∧
      ¬ Marked dottedTables out ∧ (¬ Marked dottedTables "he said [System] now".toList →
        out = "he said [System] now".toList) := by
  refine stripInjectionMarkers_ok dottedTables _ (cuttable_of_keeps fun c hc => ?_)
  have hall : "he said [System] now".toList.all (fun c => c.toNat < 128) = true := by decide
  exact keeps_of_ascii (decide_eq_true_iff.mp (List.all_eq_true.mp hall c hc))

/-- The cut behind the marker lies past the end of the text. -/
theorem stripInjectionMarkers_not_total :
    ¬ ∀ u content, ∃ out, stripInjectionMarkers u content = .ok out := by
  intro h
  obtain ⟨out, hout⟩ := h dottedTables "İ<|system|>".toList
  have hpanic : stripInjectionMarkers dottedTables "İ<|system|>".toList = .error .sliced := by
    rfl
  rw [hpanic] at hout
  cases hout

end Main

end Clawreform.Runtime.InjectionMarkers
