import Clawreform.Lib.Trimming
import Clawreform.Runtime.WebContent

namespace Clawreform.Runtime.WebContentSlices

open Clawreform.Lib.Text Clawreform.Lib.Scan Clawreform.Lib.Lowercase
open Clawreform.Lib Clawreform.Runtime.WebContent

section Purpose

/-- The characters at which the page is cut. -/
def marks : List Char := ['<', '>', '"', '\u0027']

/-- The page is not cut behind a character that changes its length in lower case. -/
def Cuttable (u : Unicode) (html : Str) : Prop := Aligned u marks html

end Purpose

section Passes

variable {u : Unicode} {html low t l : Str} {pos n : Nat} {a b : Str} {m c : Char}

theorem marks_ascii : ∀ m ∈ marks, m.toNat < 128 ∧ m.isAlpha = false := by
  have hall : marks.all (fun m => m.toNat < 128 && ! m.isAlpha) = true := by decide
  intro m hm
  simpa using List.all_eq_true.mp hall m hm

theorem lt_mem : '<' ∈ marks := by decide

theorem gt_mem : '>' ∈ marks := by decide

theorem cuttable_append (ha : ∀ c ∈ a, Keeps u c) (h : Cuttable u t) : Cuttable u (a ++ t) :=
  h.append ha

theorem keeps_of_all {s : Str} (h : s.all (fun c => c.toNat < 128) = true) :
    ∀ c ∈ s, Keeps u c :=
  fun c hc => keeps_of_ascii (of_decide_eq_true (List.all_eq_true.mp h c hc))

/-- The place is reached in the text and in its lower-case copy. -/
def Reached (u : Unicode) (html low : Str) (pos : Nat) : Prop :=
  ∃ t l, Moves u marks html low pos t l

/-- A turn goes well: it moves on to a place that is reached, or to the end, and what it writes has
no character that changes its length, or is the rest of the text. -/
def Goes (u : Unicode) (html low : Str) (pos : Nat) (x : Except Stop (Str × Nat)) : Prop :=
  ∃ piece next, x = .ok (piece, next) ∧ pos < next ∧
    (next < byteLen html → Reached u html low next) ∧
    ((∀ c ∈ piece, Keeps u c) ∨ Cuttable u piece ∧ byteLen html ≤ next)

theorem goes_on (hkeeps : ∀ c ∈ a, Keeps u c) (h : Moves u marks html low n t l) (hlt : pos < n) :
    Goes u html low pos (pure (a, n)) :=
  ⟨a, n, rfl, hlt, fun _ => ⟨t, l, h⟩, .inl hkeeps⟩

theorem goes_to_end (hpos : pos < byteLen html) (h : Cuttable u a) :
    Goes u html low pos (pure (a, byteLen html)) :=
  ⟨a, _, rfl, hpos, fun hlt => absurd hlt (Nat.lt_irrefl _), .inr ⟨h, le_rfl⟩⟩

/-- What a pass writes from a place on can be cut again. -/
def Written (u : Unicode) (len pos : Nat) (s : Str) : Prop :=
  (len ≤ pos → s = []) ∧ Cuttable u s

/-- A pass whose turns go well. -/
theorem scanLoop_cuttable {turn : Nat → Except Stop (Str × Nat)} (hhtml : Cuttable u html)
    (hturn : ∀ pos < byteLen html, Reached u html (toLowercase u html) pos →
      Goes u html (toLowercase u html) pos (turn pos)) :
    ∃ text, scanLoop (byteLen html) turn (byteLen html + 1) 0 = .ok text ∧ Cuttable u text := by
  have hend : ∀ pos, byteLen html ≤ pos → Written u (byteLen html) pos [] :=
    fun pos _ => ⟨fun _ => rfl, aligned_of_keeps (by simp)⟩
  have hnext : ∀ pos < byteLen html, Reached u html (toLowercase u html) pos →
      ∃ p, turn pos = .ok p ∧ pos < p.2 ∧
        (p.2 < byteLen html → Reached u html (toLowercase u html) p.2) ∧
        ∀ text, Written u (byteLen html) p.2 text → Written u (byteLen html) pos (p.1 ++ text) := by
    intro pos hpos hreached
    obtain ⟨piece, next, hp, hlt, hnext, hpiece⟩ := hturn pos hpos hreached
    refine ⟨(piece, next), hp, hlt, hnext, ?_⟩
    rintro text ⟨hnil, hcut⟩
    refine ⟨fun hle => absurd hpos (Nat.not_lt.mpr hle), ?_⟩
    obtain hkeeps | ⟨hlast, hle⟩ := hpiece
    · exact cuttable_append hkeeps hcut
    · rw [hnil hle, List.append_nil]
      exact hlast
  have hstart : Reached u html (toLowercase u html) 0 :=
    ⟨_, _, .refl (twin_toLowercase marks_ascii hhtml)⟩
  have hturns : byteLen html - 0 < byteLen html + 1 := Nat.lt_succ_self _
  obtain ⟨text, htext, -, hcut⟩ := scanLoop_ok hend hnext (fun _ => hstart) hturns
  exact ⟨text, htext, hcut⟩

theorem removeTurn_goes {tag close : Str} (hpos : pos < byteLen html)
    (h : Reached u html low pos) :
    Goes u html low pos (removeTurn html low ('<' :: tag) (close ++ ['>']) pos) := by
  obtain ⟨t, l, hmoves⟩ := h
  rw [removeTurn, hmoves.rest_copy]
  simp only [bind, Except.bind]
  cases hfind : findByte ('<' :: tag) l with
  | none =>
    simp only [hmoves.rest_text]
    exact goes_to_end hpos hmoves.twin.aligned
  | some start =>
    obtain ⟨d, t', l', hat, -⟩ := hmoves.twin.find_head hfind lt_mem
    obtain ⟨before, hbefore, hkeeps⟩ := hmoves.part hat
    have hplace := hmoves.trans hat
    simp only [hbefore, hplace.rest_copy, hplace.rest_text]
    cases hclose : findByte (close ++ ['>']) ('<' :: l') with
    | some stop =>
      obtain ⟨t'', l'', hbehind⟩ := hplace.find_last hclose gt_mem
      have hlen : 0 < byteLen (close ++ ['>']) := Slices.byteLen_pos (by simp)
      exact goes_on hkeeps hbehind (by omega)
    | none =>
      simp only []
      cases hgt : findByte ['>'] (d :: t') with
      | some gt =>
        obtain ⟨e, t'', l'', hgtAt, hbehind⟩ := hplace.twin.find_text hgt gt_mem
        exact goes_on hkeeps ((hplace.trans hgtAt).trans hbehind) (by omega)
      | none => exact ⟨before, _, rfl, hpos, fun hlt => absurd hlt (Nat.lt_irrefl _), .inl hkeeps⟩

theorem removeTagBlocks_ok (tag : Str) (h : Cuttable u html) :
    ∃ text, removeTagBlocks u html tag = .ok text ∧ Cuttable u text :=
  scanLoop_cuttable h fun _ hpos hreached => removeTurn_goes hpos hreached

theorem removeAllTagBlocks_ok (tags : List Str) (h : Cuttable u html) :
    ∃ text, removeAllTagBlocks u tags html = .ok text ∧ Cuttable u text := by
  induction tags generalizing html with
  | nil => exact ⟨html, rfl, h⟩
  | cons tag tags ih =>
    obtain ⟨text, htext, hcut⟩ := removeTagBlocks_ok tag h
    obtain ⟨result, hresult, hcut'⟩ := ih hcut
    refine ⟨result, ?_, hcut'⟩
    rw [removeAllTagBlocks, htext]
    exact hresult

theorem inlineTurn_goes {r : Rule} {tag close : Str} (hopen : r.openPrefix = '<' :: tag)
    (hclose : r.close = '<' :: close ++ ['>']) (hmdOpen : ∀ c ∈ r.mdOpen, Keeps u c)
    (hmdClose : ∀ c ∈ r.mdClose, Keeps u c) (hpos : pos < byteLen html)
    (h : Reached u html low pos) : Goes u html low pos (inlineTurn html low r pos) := by
  obtain ⟨t, l, hmoves⟩ := h
  rw [inlineTurn, hmoves.rest_copy, hopen]
  simp only [bind, Except.bind]
  cases hfind : findByte ('<' :: tag) l with
  | none =>
    simp only [hmoves.rest_text]
    exact goes_to_end hpos hmoves.twin.aligned
  | some start =>
    obtain ⟨d, t', l', hat, hone⟩ := hmoves.twin.find_head hfind lt_mem
    obtain ⟨before, hbefore, hkeeps⟩ := hmoves.part hat
    have hplace := hmoves.trans hat
    simp only [hbefore, hplace.rest_text]
    cases hgt : findByte ['>'] (d :: t') with
    | none =>
      obtain ⟨bracket, hbracket, hkeepsBracket⟩ := hplace.part hone
      rw [show pos + start + '<'.utf8Size = pos + start + 1 from rfl] at hbracket
      simp only [hbracket]
      exact goes_on (List.forall_mem_append.mpr ⟨hkeeps, hkeepsBracket⟩) (hplace.trans hone)
        (by omega)
    | some gt =>
      obtain ⟨e, t'', l'', hgtAt, hbehind⟩ := hplace.twin.find_text hgt gt_mem
      have hcontent : Moves u marks html low (pos + start + gt + 1) t'' l'' :=
        (hplace.trans hgtAt).trans hbehind
      simp only [hcontent.rest_copy, hclose]
      cases hstop : findByte ('<' :: close ++ ['>']) l'' with
      | none =>
        exact goes_on (List.forall_mem_append.mpr ⟨hkeeps, hmdOpen⟩) hcontent (by omega)
      | some stop =>
        obtain ⟨e', t₃, l₃, hend, -⟩ := hcontent.twin.find_head hstop lt_mem
        obtain ⟨content, hpart, hkeepsContent⟩ := hcontent.part hend
        obtain ⟨t₄, l₄, hafter⟩ := hcontent.find_last hstop gt_mem
        have hlen : 0 < byteLen ('<' :: close ++ ['>']) := Slices.byteLen_pos (by simp)
        simp only [hpart]
        refine goes_on ?_ hafter (by omega)
        simp only [List.forall_mem_append]
        exact ⟨⟨⟨hkeeps, hmdOpen⟩, hkeepsContent⟩, hmdClose⟩

theorem stripAllTags_subset (b : Bool) (s : Str) : stripAllTags.go b s ⊆ s := by
  induction s generalizing b with
  | nil => exact List.Subset.refl _
  | cons c s ih =>
    rw [stripAllTags.go]
    split
    · exact List.subset_cons_of_subset c (ih true)
    · split
      · exact List.subset_cons_of_subset c (ih false)
      · split
        · exact List.subset_cons_of_subset c (ih b)
        · exact List.cons_subset_cons c (ih b)

theorem attributeValue_ok {tag pattern : Str} {q : Char} (hq : q ∈ marks)
    (htwin : Twin u marks tag low) :
    ∃ value, attributeValue tag low (pattern ++ [q]) q = .ok value ∧
      ∀ x ∈ value, ∀ c ∈ x, Keeps u c := by
  rw [attributeValue]
  simp only [bind, Except.bind]
  cases hfind : findByte (pattern ++ [q]) low with
  | none => exact ⟨none, rfl, by simp⟩
  | some start =>
    obtain ⟨t, l, hstart⟩ := (Moves.refl htwin).find_last hfind hq
    rw [Nat.zero_add] at hstart
    simp only [hstart.rest_text]
    cases hstop : findByte [q] t with
    | none => exact ⟨none, rfl, by simp⟩
    | some stop =>
      obtain ⟨d, t', l', hat, -⟩ := hstart.twin.find_text hstop hq
      obtain ⟨value, hvalue, hkeeps⟩ := hstart.part hat
      simp only [hvalue]
      exact ⟨some value, rfl, by simpa using hkeeps⟩

theorem extractAttribute_ok {tag attr : Str} (h : Cuttable u tag) :
    ∃ value, extractAttribute u tag attr = .ok value ∧ ∀ x ∈ value, ∀ c ∈ x, Keeps u c := by
  have htwin := twin_toLowercase marks_ascii h
  obtain ⟨double, hdouble, hkeeps⟩ :=
    @attributeValue_ok u _ tag (attr ++ ['=']) '"' (by decide) htwin
  obtain ⟨single, hsingle, hkeeps'⟩ :=
    @attributeValue_ok u _ tag (attr ++ ['=']) '\u0027' (by decide) htwin
  rw [List.append_assoc] at hdouble hsingle
  rw [extractAttribute]
  simp only [bind, Except.bind]
  rw [show "=\"".toList = ['='] ++ ['"'] from rfl, hdouble]
  cases double with
  | some value => exact ⟨some value, rfl, hkeeps⟩
  | none => exact ⟨single, hsingle, hkeeps'⟩

theorem linkTurn_goes (hpos : pos < byteLen html) (h : Reached u html low pos) :
    Goes u html low pos (linkTurn u html low pos) := by
  obtain ⟨t, l, hmoves⟩ := h
  rw [linkTurn, hmoves.rest_copy]
  simp only [bind, Except.bind]
  cases hfind : findByte "<a ".toList l with
  | none =>
    simp only [hmoves.rest_text]
    exact goes_to_end hpos hmoves.twin.aligned
  | some start =>
    have hfind' : findByte ('<' :: "a ".toList) l = some start := hfind
    obtain ⟨d, t', l', hat, hone⟩ := hmoves.twin.find_head hfind' lt_mem
    obtain ⟨before, hbefore, hkeeps⟩ := hmoves.part hat
    have hplace := hmoves.trans hat
    obtain ⟨href, hhref, hkeepsHref⟩ :=
      @extractAttribute_ok u _ "href".toList hplace.twin.aligned
    simp only [hbefore, hplace.rest_text, hhref]
    cases hgt : findByte ['>'] (d :: t') with
    | none =>
      obtain ⟨bracket, hbracket, hkeepsBracket⟩ := hplace.part hone
      rw [show pos + start + '<'.utf8Size = pos + start + 1 from rfl] at hbracket
      simp only [hbracket]
      exact goes_on (List.forall_mem_append.mpr ⟨hkeeps, hkeepsBracket⟩) (hplace.trans hone)
        (by omega)
    | some gt =>
      obtain ⟨e, t'', l'', hgtAt, hbehind⟩ := hplace.twin.find_text hgt gt_mem
      have hcontent : Moves u marks html low (pos + start + gt + 1) t'' l'' :=
        (hplace.trans hgtAt).trans hbehind
      simp only [hcontent.rest_copy]
      cases hstop : findByte "</a>".toList l'' with
      | none => exact goes_on hkeeps hcontent (by omega)
      | some stop =>
        have hstop' : findByte ('<' :: "/a>".toList) l'' = some stop := hstop
        have hstop'' : findByte ("</a".toList ++ ['>']) l'' = some stop := hstop
        obtain ⟨e', t₃, l₃, hend, -⟩ := hcontent.twin.find_head hstop' lt_mem
        obtain ⟨content, hpart, hkeepsContent⟩ := hcontent.part hend
        obtain ⟨t₄, l₄, hafter⟩ := hcontent.find_last hstop'' gt_mem
        simp only [hpart]
        have htext : ∀ c ∈ trim (stripAllTags content), Keeps u c := fun c hc =>
          hkeepsContent c (stripAllTags_subset false content ((Trimming.trim_isInfix _).subset hc))
        refine goes_on (List.forall_mem_append.mpr ⟨hkeeps, ?_⟩) hafter (by omega)
        cases href with
        | none => exact htext
        | some url =>
          simp only [List.forall_mem_append]
          exact ⟨⟨⟨⟨keeps_of_all (by decide), htext⟩, keeps_of_all (by decide)⟩,
            hkeepsHref url rfl⟩, keeps_of_all (by decide)⟩

end Passes

section Pipeline

variable {u : Unicode} {html t a b s pat new : Str} {k turns : Nat} {r : Rule} {rs : List Rule}

/-- A rule looks for a tag, and writes ASCII. -/
structure Sound (r : Rule) : Prop where
  start : ∃ tag, r.openPrefix = '<' :: tag
  close : ∃ tag, r.close = '<' :: tag ++ ['>']
  ascii : ∀ c ∈ r.mdOpen ++ r.mdClose, c.toNat < 128

theorem convertInlineTag_ok (hr : Sound r) (h : Cuttable u html) :
    ∃ text, convertInlineTag u html r = .ok text ∧ Cuttable u text := by
  obtain ⟨tag, hopen⟩ := hr.start
  obtain ⟨close, hclose⟩ := hr.close
  refine scanLoop_cuttable h fun _ hpos hreached => inlineTurn_goes hopen hclose ?_ ?_ hpos hreached
  · exact fun c hc => keeps_of_ascii (hr.ascii c (List.mem_append_left _ hc))
  · exact fun c hc => keeps_of_ascii (hr.ascii c (List.mem_append_right _ hc))

theorem convertAll_ok (hrs : ∀ r ∈ rs, Sound r) (h : Cuttable u html) :
    ∃ text, convertAll u rs html = .ok text ∧ Cuttable u text := by
  induction rs generalizing html with
  | nil => exact ⟨html, rfl, h⟩
  | cons r rs ih =>
    obtain ⟨hr, hrs⟩ := List.forall_mem_cons.mp hrs
    obtain ⟨text, htext, hcut⟩ := convertInlineTag_ok hr h
    obtain ⟨result, hresult, hcut'⟩ := ih hrs hcut
    refine ⟨result, ?_, hcut'⟩
    rw [convertAll, htext]
    exact hresult

theorem rules_cons {a b c d : Str} {rest rs : List Rule} (h : rest = rs) :
    Rule.of (.ofList a) (.ofList b) (.ofList c) (.ofList d) :: rest = ⟨a, b, c, d⟩ :: rs := by
  simp only [h, Rule.of, String.toList_ofList]

/-- The rules by their characters, which are all that a check of them has to look at. -/
theorem rules_all {check : Rule → Bool} {rs : List Rule}
    (h : blockRules ++ textRules ++ boxRules = rs) (hall : rs.all check = true) :
    ∀ r ∈ blockRules ++ textRules ++ boxRules, check r = true := by
  subst h
  exact List.all_eq_true.mp hall

theorem sound_rules : ∀ r ∈ blockRules ++ textRules ++ boxRules, Sound r := by
  have hall : ∀ r ∈ blockRules ++ textRules ++ boxRules, (r.openPrefix.head? == some '<' &&
      r.close.head? == some '<' && r.close.tail.getLast? == some '>' &&
      (r.mdOpen ++ r.mdClose).all fun c => c.toNat < 128) = true := by
    apply rules_all
    · repeat apply rules_cons
      rfl
    · decide +kernel
  intro r hr
  have hends := hall r hr
  simp only [Bool.and_eq_true, beq_iff_eq, List.all_eq_true, decide_eq_true_iff] at hends
  obtain ⟨⟨⟨hopen, hclose⟩, hlast⟩, hascii⟩ := hends
  obtain ⟨tag, htag⟩ := List.head?_eq_some_iff.mp hopen
  obtain ⟨close, hclose'⟩ := List.head?_eq_some_iff.mp hclose
  rw [hclose', List.tail_cons] at hlast
  obtain ⟨pre, hpre⟩ := List.getLast?_eq_some_iff.mp hlast
  exact ⟨⟨tag, htag⟩, ⟨pre, by rw [hclose', hpre]; rfl⟩, hascii⟩

theorem convertLinks_ok (h : Cuttable u html) :
    ∃ text, convertLinks u html = .ok text ∧ Cuttable u text :=
  scanLoop_cuttable h fun _ hpos hreached => linkTurn_goes hpos hreached

theorem replaceFrom_subset (h : '<' ∉ b) : replaceFrom ('<' :: pat) new k b ⊆ b := by
  induction b generalizing k with
  | nil => cases k <;> exact List.Subset.refl _
  | cons c b ih =>
    rw [List.mem_cons, not_or] at h
    cases k with
    | succ k => exact List.subset_cons_of_subset c (ih h.2)
    | zero =>
      have hnot : ¬ '<' :: pat <+: c :: b := fun hp => h.1 (List.cons_prefix_cons.mp hp).1
      rw [replaceFrom, if_neg hnot]
      exact List.cons_subset_cons c (ih h.2)

theorem replaceFrom_kept (hnew : ∀ c ∈ new, Keeps u c) (ha : ∀ c ∈ a, Keeps u c) :
    ∃ a' k', replaceFrom pat new k (a ++ b) = a' ++ replaceFrom pat new k' b ∧
      ∀ c ∈ a', Keeps u c := by
  induction a generalizing k with
  | nil => exact ⟨[], k, rfl, by simp⟩
  | cons c a ih =>
    obtain ⟨hc, ha⟩ := List.forall_mem_cons.mp ha
    cases k with
    | succ k => exact ih ha
    | zero =>
      rw [List.cons_append, replaceFrom]
      split
      · obtain ⟨a', k', heq, hkeeps⟩ := @ih (pat.length - 1) ha
        refine ⟨new ++ a', k', by rw [heq, List.append_assoc], ?_⟩
        exact List.forall_mem_append.mpr ⟨hnew, hkeeps⟩
      · obtain ⟨a', k', heq, hkeeps⟩ := @ih 0 ha
        exact ⟨c :: a', k', by rw [heq]; rfl, List.forall_mem_cons.mpr ⟨hc, hkeeps⟩⟩

theorem cuttable_replaceText (hnew : ∀ c ∈ new, Keeps u c) (h : Cuttable u s) :
    Cuttable u (replaceText s ('<' :: pat) new) := by
  obtain ⟨a, b, rfl, ha, hb⟩ := h
  obtain ⟨a', k, heq, hkeeps⟩ := @replaceFrom_kept u a b ('<' :: pat) new 0 hnew ha
  refine ⟨a', _, heq, hkeeps, fun m hm hin => hb m hm ?_⟩
  exact replaceFrom_subset (hb '<' lt_mem) hin

theorem cuttable_replaceBreaks (h : Cuttable u s) : Cuttable u (replaceBreaks s) := by
  have hnew : ∀ c ∈ ['\n'], Keeps u c := keeps_of_all (by decide)
  exact cuttable_replaceText hnew (cuttable_replaceText hnew (cuttable_replaceText hnew h))

theorem removeComments_ok (h : Cuttable u s) (hturns : byteLen s < turns) :
    ∃ text, removeComments turns s = .ok text ∧ Cuttable u text := by
  induction turns generalizing s with
  | zero => exact absurd hturns (Nat.not_lt_zero _)
  | succ turns ih =>
    rw [removeComments]
    split
    · rename_i start stop hstart hstop
      split
      · rename_i hlt
        have htwin := twin_self h
        have hstart' : findByte ('<' :: "!--".toList) s = some start := hstart
        have hstop' : findByte ("--".toList ++ ['>']) s = some stop := hstop
        obtain ⟨d, t', l', hat, -⟩ := htwin.find_head hstart' lt_mem
        obtain ⟨t'', l'', hbehind⟩ := (Moves.refl htwin).find_last hstop' gt_mem
        obtain ⟨before, hs, hlen, hkeeps⟩ := hat.text
        obtain ⟨upTo, hs', hlen', -⟩ := hbehind.text
        have hpart : part 0 start s = .ok before := by
          have hp := part_append [] before (d :: t')
          rwa [byteLen_nil, Nat.zero_add, hlen, List.nil_append, ← hs] at hp
        have hrest : rest (stop + 3) s = .ok t'' := by
          rw [← hbehind.rest_text, Nat.zero_add]
          rfl
        have hshort : byteLen (before ++ t'') < turns := by
          have htotal := congrArg byteLen hs'
          rw [byteLen_append, hlen'] at htotal
          rw [byteLen_append, hlen]
          omega
        obtain ⟨text, htext, hcut⟩ := ih (cuttable_append hkeeps hbehind.twin.aligned) hshort
        refine ⟨text, ?_, hcut⟩
        rw [hpart, hrest]
        exact htext
      · exact ⟨s, rfl, h⟩
    · exact ⟨s, rfl, h⟩

theorem extractFrom_ok (tags : List Str) (h : Cuttable u html) :
    ∃ text, extractFrom html (toLowercase u html) tags = .ok text ∧ Cuttable u text := by
  have htwin := twin_toLowercase marks_ascii h
  induction tags with
  | nil => exact ⟨html, rfl, h⟩
  | cons tag tags ih =>
    rw [extractFrom]
    simp only [bind, Except.bind]
    cases hfind : findByte ('<' :: tag) (toLowercase u html) with
    | none => exact ih
    | some start =>
      obtain ⟨d, t', l', hat, -⟩ := htwin.find_head hfind lt_mem
      simp only [hat.rest_text]
      cases hgt : findByte ['>'] (d :: t') with
      | none => exact ih
      | some gt =>
        obtain ⟨e, t'', l'', hgtAt, hbehind⟩ := hat.twin.find_text hgt gt_mem
        have hcontent : Moves u marks html (toLowercase u html) (start + gt + 1) t'' l'' :=
          (hat.trans hgtAt).trans hbehind
        simp only [hcontent.rest_copy]
        cases hstop : findByte ("</".toList ++ tag ++ ['>']) l'' with
        | none => exact ih
        | some stop =>
          have hstop' : findByte ('<' :: ('/' :: tag ++ ['>'])) l'' = some stop := hstop
          obtain ⟨e', t₃, l₃, hend, -⟩ := hcontent.twin.find_head hstop' lt_mem
          obtain ⟨content, hpart, hkeeps⟩ := hcontent.part hend
          exact ⟨content, hpart, aligned_of_keeps hkeeps⟩

theorem removeNonContentBlocks_ok (h : Cuttable u html) :
    ∃ text, removeNonContentBlocks u html = .ok text ∧ Cuttable u text := by
  obtain ⟨text, htext, hcut⟩ := removeAllTagBlocks_ok tagsToRemove h
  obtain ⟨result, hresult, hcut'⟩ := removeComments_ok hcut (Nat.lt_succ_self _)
  refine ⟨result, ?_, hcut'⟩
  rw [removeNonContentBlocks, htext]
  exact hresult

theorem convertElements_ok (h : Cuttable u html) : ∃ text, convertElements u html = .ok text := by
  have hsound := sound_rules
  simp only [List.forall_mem_append] at hsound
  obtain ⟨blocks, hblocks, hcut⟩ := convertAll_ok hsound.1.1 h
  obtain ⟨texts, htexts, hcut⟩ := convertAll_ok hsound.1.2 (cuttable_replaceBreaks hcut)
  obtain ⟨links, hlinks, hcut⟩ := convertLinks_ok hcut
  obtain ⟨boxes, hboxes, -⟩ := convertAll_ok hsound.2 hcut
  refine ⟨decodeEntities (stripAllTags boxes), ?_⟩
  simp only [convertElements, bind, Except.bind, hblocks, htexts, hlinks, hboxes]
  rfl

theorem htmlToMarkdown_ok (h : Cuttable u html) : ∃ text, htmlToMarkdown u html = .ok text := by
  obtain ⟨cleaned, hcleaned, hcut⟩ := removeNonContentBlocks_ok h
  obtain ⟨content, hcontent, hcut⟩ : ∃ text, extractMainContent u cleaned = .ok text ∧
      Cuttable u text := extractFrom_ok _ hcut
  obtain ⟨markdown, hmarkdown⟩ := convertElements_ok hcut
  refine ⟨collapseWhitespace markdown, ?_⟩
  simp only [htmlToMarkdown, bind, Except.bind, hcleaned, hcontent, hmarkdown]
  rfl

end Pipeline

section Termination

variable {u : Unicode} {html low s : Str} {pos turns : Nat} {r : Rule}

theorem forward_removeTurn {openTag closeTag : Str} (hne : closeTag ≠ [])
    (hpos : pos < byteLen html) : Forward pos (removeTurn html low openTag closeTag pos) := by
  have hlen := Slices.byteLen_pos hne
  refine forward_bind ends_rest fun l _ => ?_
  cases findByte openTag l with
  | none => exact forward_bind ends_rest fun text _ => forward_pure text hpos
  | some start =>
    refine forward_bind ends_part fun before _ => forward_bind ends_rest fun l' _ => ?_
    cases findByte closeTag l' with
    | some stop => exact forward_pure before (by omega)
    | none =>
      refine forward_bind ends_rest fun t _ => ?_
      cases findByte ['>'] t with
      | some gt => exact forward_pure before (by omega)
      | none => exact forward_pure before hpos

theorem forward_inlineTurn (hpos : pos < byteLen html) :
    Forward pos (inlineTurn html low r pos) := by
  refine forward_bind ends_rest fun l _ => ?_
  cases findByte r.openPrefix l with
  | none => exact forward_bind ends_rest fun text _ => forward_pure text hpos
  | some start =>
    refine forward_bind ends_part fun before _ => forward_bind ends_rest fun t _ => ?_
    cases findByte ['>'] t with
    | none => exact forward_bind ends_part fun bracket _ => forward_pure _ (by omega)
    | some gt =>
      refine forward_bind ends_rest fun l' _ => ?_
      cases findByte r.close l' with
      | some stop => exact forward_bind ends_part fun content _ => forward_pure _ (by omega)
      | none => exact forward_pure _ (by omega)

theorem ends_attributeValue {tag pattern : Str} {q : Char} :
    Ends (attributeValue tag low pattern q) := by
  rw [attributeValue]
  cases findByte pattern low with
  | none => exact ends_pure _
  | some start =>
    refine ends_bind ends_rest fun t _ => ?_
    cases findByte [q] t with
    | none => exact ends_pure _
    | some stop => exact ends_bind ends_part fun _ _ => ends_pure _

theorem forward_linkTurn (hpos : pos < byteLen html) : Forward pos (linkTurn u html low pos) := by
  refine forward_bind ends_rest fun l _ => ?_
  cases findByte "<a ".toList l with
  | none => exact forward_bind ends_rest fun text _ => forward_pure text hpos
  | some start =>
    refine forward_bind ends_part fun before _ => forward_bind ends_rest fun t _ => ?_
    have hattribute : Ends (extractAttribute u t "href".toList) := by
      refine ends_bind ends_attributeValue fun value _ => ?_
      cases value with
      | some x => exact ends_pure _
      | none => exact ends_attributeValue
    refine forward_bind hattribute fun href _ => ?_
    cases findByte ['>'] t with
    | none => exact forward_bind ends_part fun bracket _ => forward_pure _ (by omega)
    | some gt =>
      refine forward_bind ends_rest fun l' _ => ?_
      cases findByte "</a>".toList l' with
      | some stop => exact forward_bind ends_part fun content _ => forward_pure _ (by omega)
      | none => exact forward_pure _ (by omega)

theorem ends_removeAllTagBlocks (tags : List Str) : Ends (removeAllTagBlocks u tags html) := by
  induction tags generalizing html with
  | nil => exact ends_pure _
  | cons tag tags ih =>
    refine ends_bind (ends_scanLoop ?_ (Nat.lt_succ_self _)) fun _ _ => ih
    exact fun pos hpos => forward_removeTurn (by simp) hpos

theorem ends_convertAll (rs : List Rule) : Ends (convertAll u rs html) := by
  induction rs generalizing html with
  | nil => exact ends_pure _
  | cons r rs ih =>
    refine ends_bind (ends_scanLoop ?_ (Nat.lt_succ_self _)) fun _ _ => ih
    exact fun pos hpos => forward_inlineTurn hpos

theorem ends_removeComments (hturns : byteLen s < turns) : Ends (removeComments turns s) := by
  induction turns generalizing s with
  | zero => exact absurd hturns (Nat.not_lt_zero _)
  | succ turns ih =>
    rw [removeComments]
    split
    · rename_i start stop _ _
      split
      · rename_i hlt
        refine ends_bind ends_part fun before hbefore => ?_
        refine ends_bind ends_rest fun behind hbehind => ?_
        apply ih
        rw [byteLen_append]
        obtain ⟨-, -, -, -, h₁⟩ := exists_of_part hbefore
        have h₂ := byteLen_rest hbehind
        omega
      · exact ends_pure _
    · exact ends_pure _

theorem ends_extractFrom (tags : List Str) : Ends (extractFrom html low tags) := by
  induction tags with
  | nil => exact ends_pure _
  | cons tag tags ih =>
    rw [extractFrom]
    cases findByte ('<' :: tag) low with
    | none => exact ih
    | some start =>
      refine ends_bind ends_rest fun t _ => ?_
      cases findByte ['>'] t with
      | none => exact ih
      | some gt =>
        refine ends_bind ends_rest fun l _ => ?_
        cases findByte ("</".toList ++ tag ++ ['>']) l with
        | none => exact ih
        | some stop => exact ends_part

theorem ends_htmlToMarkdown : Ends (htmlToMarkdown u html) := by
  refine ends_bind ?_ fun cleaned _ => ends_bind (ends_extractFrom _) fun content _ =>
    ends_bind ?_ fun markdown _ => ends_pure _
  · exact ends_bind (ends_removeAllTagBlocks _) fun result _ =>
      ends_removeComments (Nat.lt_succ_self _)
  · refine ends_bind (ends_convertAll _) fun blocks _ => ?_
    refine ends_bind (ends_convertAll _) fun texts _ => ?_
    refine ends_bind (ends_scanLoop ?_ (Nat.lt_succ_self _)) fun links _ =>
      ends_bind (ends_convertAll _) fun _ _ => ends_pure _
    exact fun pos hpos => forward_linkTurn hpos

end Termination

section Main

variable (u : Unicode) (cfg : WebFetchConfig) (contentType body : Str)

/-- The response goes through the conversion. -/
def IsConverted : Prop := cfg.readability ∧ isHtml contentType body

/-- A text can be cut behind its first bytes. -/
def Boundary (n : Nat) (s : Str) : Prop := ∃ a b, s = a ++ b ∧ byteLen a = n

variable {u cfg contentType body}

theorem ends_processBody : Ends (processBody u cfg contentType body) := by
  refine ends_bind ?_ fun processed _ => ?_
  · rw [process]
    split
    · exact ends_bind ends_htmlToMarkdown fun _ _ => ends_pure _
    · exact ends_pure _
  · rw [truncate]
    split
    · exact ends_bind ends_part fun _ _ => ends_pure _
    · exact ends_pure _

theorem process_ok (h : IsConverted cfg contentType body → Cuttable u body) :
    ∃ processed, process u cfg contentType body = .ok processed := by
  rw [process]
  split
  · rename_i hconverted
    obtain ⟨markdown, hmarkdown⟩ := htmlToMarkdown_ok (h (Bool.and_eq_true_iff.mp hconverted))
    rw [hmarkdown]
    exact ⟨_, rfl⟩
  · exact ⟨body, rfl⟩

theorem truncate_ok_iff {n : Nat} {s : Str} :
    (∃ text, truncate n s = .ok text) ↔ byteLen s ≤ n ∨ Boundary n s := by
  rw [truncate]
  split
  · rename_i hlong
    rw [or_iff_right (Nat.not_le.mpr hlong)]
    constructor
    · rintro ⟨text, htext⟩
      cases hpart : part 0 n s with
      | error e =>
        rw [hpart] at htext
        cases htext
      | ok a =>
        obtain ⟨x, b, rfl, hx, ha⟩ := exists_of_part hpart
        obtain rfl := Slices.eq_nil_of_byteLen hx
        exact ⟨a, b, rfl, ha⟩
    · rintro ⟨a, b, rfl, rfl⟩
      have hpart := part_append [] a b
      rw [byteLen_nil, Nat.zero_add, List.nil_append] at hpart
      rw [hpart]
      exact ⟨_, rfl⟩
  · rename_i hshort
    exact ⟨fun _ => .inl (Nat.le_of_not_lt hshort), fun _ => ⟨s, rfl⟩⟩

/-- Tables with the Kelvin sign, whose lower case is an ASCII letter. -/
def kelvinTables : Unicode where
  lower c := if c = '\u212a' then ['k'] else [c.toLower]
  wordEnd _ _ := false
  lower_ascii c h := by
    refine if_neg ?_
    rintro rfl
    exact absurd h (by decide)
  lower_other c d hmem hascii hother := by
    split at hmem
    · obtain rfl := List.mem_singleton.mp hmem
      exact absurd hother (by decide)
    · obtain rfl := List.mem_singleton.mp hmem
      exact toLower_eq_self hother

def pageConfig : WebFetchConfig := ⟨true, 50000⟩

/-- `"300 K<p>hot</p>"` with the Kelvin sign. -/
def hotPage : Str := "300 \u212a<p>hot</p>".toList

theorem cuttable_plainPage : Cuttable kelvinTables "<p>hot</p>".toList :=
  aligned_of_keeps (keeps_of_all (by decide))

end Main

end Clawreform.Runtime.WebContentSlices
