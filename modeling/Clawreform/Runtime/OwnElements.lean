import Clawreform.Runtime.ElementPasses
import Clawreform.Runtime.WebContentSlices

namespace Clawreform.Runtime.OwnElements

open Clawreform.Lib Clawreform.Lib.Text Clawreform.Lib.Find Clawreform.Lib.Scan
open Clawreform.Lib.Lowercase Clawreform.Lib.Html
open Clawreform.Runtime.WebContent Clawreform.Runtime.ElementPasses
open Clawreform.Runtime.WebContentSlices (kelvinTables rules_all rules_cons)

section Purpose

def rules : List Rule := blockRules ++ textRules ++ boxRules

/-- The name of the elements that a rule is for. -/
def ruleName (r : Rule) : Str := r.openPrefix.tail

def ruleFor (name : Str) : Option Rule := rules.find? fun r => ruleName r == name

/-- The tags of a line break. -/
def breaks : List Str := ["br".toList, "br/".toList, "br /".toList]

def isLink (name attrs : Str) : Bool := lower name == "a".toList && attrs.head? == some ' '

/-- The address in double quotes. -/
def hrefOf (attrs : Str) : Option Str :=
  (find "href=\"".toList (lower attrs)).bind fun n =>
    if '"' ∈ attrs.drop (n + 6) then some ((attrs.drop (n + 6)).takeWhile (· ≠ '"')) else none

/-- The Markdown of an element that holds some text. -/
def markup (name attrs content : Str) : Str :=
  match ruleFor (lower name) with
  | some r => r.mdOpen ++ content ++ r.mdClose
  | none =>
    if isLink name attrs then
      ['['] ++ trim content ++ "](".toList ++ (hrefOf attrs).getD [] ++ [')']
    else content

/-- The Markdown of a page: every element has the markers of its own rule around what it holds. -/
def markdown : Page → Str
  | .nil => []
  | .char c rest => (if c = '>' then [] else [c]) ++ markdown rest
  | .tag body rest => (if body ∈ breaks then ['\n'] else []) ++ markdown rest
  | .element name attrs _ children rest => markup name attrs (markdown children) ++ markdown rest

/-- Every element of a page gets the markers of its own rule, and nothing else gets any. -/
def OwnMarkers (u : Unicode) (page : Page) : Prop :=
  convertElements u (render page) = .ok (decodeEntities (markdown page))

/-- No element that would put a line break around its contents. -/
def Unboxed : Local where
  char _ := True
  tag _ := True
  element name _ _ _ := lower name ≠ "div".toList ∧ lower name ≠ "section".toList

/-- The characters keep their length in lower case. Tags stand alone only where they are not taken
for the tag of a rule, line breaks in their three spellings apart. The name of an element begins
with the name of a rule only where it is that name; the element then holds no other one of this
name, nor a tag that closes it. A link has its address in double quotes, and holds no link and
nothing that would break its line. -/
def Tame (u : Unicode) (exempt : List Str) : Local where
  char c := WellFormed.char c ∧ Keeps u c
  tag body := WellFormed.tag body ∧ (∀ c ∈ body, Keeps u c) ∧
    (body ∈ exempt ∨ ∀ r ∈ rules, ¬ ruleName r <+: lower body) ∧ ¬ "a ".toList <+: lower body
  element name attrs close children := WellFormed.element name attrs close children ∧
    (∀ c ∈ name ++ attrs ++ close, Keeps u c) ∧
    (∀ r ∈ rules, ruleName r <+: lower name →
      lower name = ruleName r ∧ Everywhere (Free (ruleName r)) children) ∧
    (isLink name attrs = true → Everywhere (Free "a".toList) children ∧
      Everywhere Unboxed children ∧ (hrefOf attrs).isSome)

end Purpose

section Decisions

variable {u : Unicode} {exempt : List Str}

def keepsLength (u : Unicode) (c : Char) : Bool :=
  c == 'Σ' || match u.lower c with
    | [d] => d.utf8Size == c.utf8Size
    | _ => false

instance (c : Char) : Decidable (Keeps u c) :=
  decidable_of_iff (keepsLength u c) (by
    rw [keepsLength, Keeps, Bool.or_eq_true, beq_iff_eq]
    refine or_congr_right ?_
    split
    · rename_i d hd
      simp [hd]
    · rename_i hother
      simp only [Bool.false_eq_true, false_iff]
      rintro ⟨d, hd, -⟩
      exact hother d hd)

instance (c : Char) : Decidable (Unboxed.char c) := inferInstanceAs (Decidable True)

instance (b : Str) : Decidable (Unboxed.tag b) := inferInstanceAs (Decidable True)

instance (n a c : Str) (ch : Page) : Decidable (Unboxed.element n a c ch) :=
  inferInstanceAs (Decidable (lower n ≠ "div".toList ∧ lower n ≠ "section".toList))

instance (c : Char) : Decidable ((Tame u exempt).char c) :=
  inferInstanceAs (Decidable (WellFormed.char c ∧ Keeps u c))

def decideAll {α : Type} {p : α → Prop} [DecidablePred p] (s : List α) :
    Decidable (∀ x ∈ s, p x) :=
  decidable_of_iff (s.all fun x => decide (p x)) (by simp)

instance (b : Str) : Decidable ((Tame u exempt).tag b) :=
  have : Decidable (∀ c ∈ b, Keeps u c) := decideAll b
  have : Decidable (∀ r ∈ rules, ¬ ruleName r <+: lower b) := decideAll rules
  inferInstanceAs (Decidable (WellFormed.tag b ∧ (∀ c ∈ b, Keeps u c) ∧
    (b ∈ exempt ∨ ∀ r ∈ rules, ¬ ruleName r <+: lower b) ∧ ¬ "a ".toList <+: lower b))

instance (n a c : Str) (ch : Page) : Decidable ((Tame u exempt).element n a c ch) :=
  have : Decidable (∀ d ∈ n ++ a ++ c, Keeps u d) := decideAll _
  have : Decidable (∀ r ∈ rules, ruleName r <+: lower n →
      lower n = ruleName r ∧ Everywhere (Free (ruleName r)) ch) := decideAll rules
  inferInstanceAs (Decidable (WellFormed.element n a c ch ∧ (∀ d ∈ n ++ a ++ c, Keeps u d) ∧
    (∀ r ∈ rules, ruleName r <+: lower n →
      lower n = ruleName r ∧ Everywhere (Free (ruleName r)) ch) ∧
    (isLink n a = true → Everywhere (Free "a".toList) ch ∧ Everywhere Unboxed ch ∧
      (hrefOf a).isSome)))

end Decisions

section Href

variable {u : Unicode} {attrs name url k : Str}

theorem exists_first {d : Char} {s : Str} (h : d ∈ s) :
    ∃ y, s = s.takeWhile (· ≠ d) ++ d :: y ∧ d ∉ s.takeWhile (· ≠ d) := by
  induction s with
  | nil => cases h
  | cons c s ih =>
    by_cases hc : c = d
    · subst hc
      exact ⟨s, by simp, by simp⟩
    · obtain ⟨y, hy, hnot⟩ := ih ((List.mem_cons.mp h).resolve_left (Ne.symm hc))
      have htake : (c :: s).takeWhile (· ≠ d) = c :: s.takeWhile (· ≠ d) :=
        List.takeWhile_cons_of_pos (by simpa using hc)
      rw [htake]
      refine ⟨y, congrArg (c :: ·) hy, ?_⟩
      rw [List.mem_cons, not_or]
      exact ⟨Ne.symm hc, hnot⟩

/-- Where the address stands. -/
theorem exists_of_hrefOf (h : hrefOf attrs = some url) :
    ∃ x raw y, attrs = x ++ (raw ++ (url ++ '"' :: y)) ∧ lower raw = "href=\"".toList ∧
      find "href=\"".toList (lower attrs) = some x.length ∧ '"' ∉ url := by
  obtain ⟨n, hn, hurl⟩ := Option.bind_eq_some_iff.mp h
  split at hurl
  · rename_i hquote
    cases hurl
    obtain ⟨y, hy, hnot⟩ := exists_first hquote
    obtain ⟨a, b, hlower, rfl, -⟩ := exists_of_find (by decide) hn
    have hle : a.length ≤ attrs.length := by
      have hlen := congrArg List.length hlower
      rw [lower, List.length_map, List.length_append, List.length_append] at hlen
      omega
    refine ⟨attrs.take a.length, (attrs.drop a.length).take 6, y, ?_, ?_, ?_, hnot⟩
    · rw [← hy, ← List.drop_drop, List.take_append_drop, List.take_append_drop]
    · rw [lower, List.map_take, List.map_drop]
      show ((lower attrs).drop a.length).take 6 = _
      rw [hlower, List.append_assoc, List.drop_left]
      rfl
    · rw [hn, List.length_take_of_le hle]
  · cases hurl

theorem extractAttribute_href (hkeeps : ∀ c ∈ name ++ attrs, Keeps u c)
    (hname : lower name = "a".toList) (hurl : hrefOf attrs = some url) :
    extractAttribute u ('<' :: (name ++ attrs) ++ '>' :: k) "href".toList = .ok (some url) := by
  obtain ⟨x, raw, y, rfl, hraw, hfind, hquote⟩ := exists_of_hrefOf hurl
  have hkept : ∀ c ∈ '<' :: (name ++ (x ++ (raw ++ (url ++ '"' :: y)))), Keeps u c :=
    List.forall_mem_cons.mpr ⟨keeps_of_ascii (by decide), hkeeps⟩
  obtain ⟨la, hla, hmirrors⟩ := lowercaseFrom_kept [] ('>' :: k) hkept
  have hpat : ∀ c ∈ "href=\"".toList, c.toNat < 128 := by simp
  have hlen : ('<' :: (name ++ x)).length = x.length + 2 := by
    have hone : name.length = 1 := by
      have := congrArg List.length hname
      rwa [lower, List.length_map] at this
    rw [List.length_cons, List.length_append, hone]
    omega
  have hfound : find "href=\"".toList la = some ('<' :: (name ++ x)).length := by
    rw [find_mirror hpat hmirrors, hlen]
    show find "href=\"".toList ('<' :: lower (name ++ _)) = _
    rw [lower_append, hname]
    show find "href=\"".toList ('<' :: 'a' :: lower _) = _
    rw [find_cons_of_not (by simp), find_cons_of_not (by simp), hfind]
    rfl
  have hbyte : findByte "href=\"".toList (toLowercase u ('<' :: (name ++ (x ++ (raw ++
      (url ++ '"' :: y)))) ++ '>' :: k)) = some (byteLen ('<' :: (name ++ x))) := by
    have hle := find_le hfound
    have hsplit : '<' :: (name ++ (x ++ (raw ++ (url ++ '"' :: y)))) =
        '<' :: (name ++ x) ++ (raw ++ (url ++ '"' :: y)) := by simp
    rw [findByte, toLowercase, hla, find_append hfound, Option.map_some,
      List.take_append_of_le_length (by omega), byteLen_take_of_forall₂ hmirrors, hsplit,
      List.take_left]
  have hrawLen : byteLen raw = byteLen "href=\"".toList := by rw [← hraw, byteLen_lower]
  have hvalue : rest (byteLen ('<' :: (name ++ x)) + byteLen "href=\"".toList)
      ('<' :: (name ++ (x ++ (raw ++ (url ++ '"' :: y)))) ++ '>' :: k) =
        .ok (url ++ '"' :: (y ++ '>' :: k)) := by
    have hrest := rest_append ('<' :: (name ++ x) ++ raw) (url ++ '"' :: (y ++ '>' :: k))
    rw [byteLen_append, hrawLen] at hrest
    simpa using hrest
  have hend := findByte_notMem hquote (y ++ '>' :: k)
  have hpart : part (byteLen ('<' :: (name ++ x)) + byteLen "href=\"".toList)
      (byteLen ('<' :: (name ++ x)) + byteLen "href=\"".toList + byteLen url)
      ('<' :: (name ++ (x ++ (raw ++ (url ++ '"' :: y)))) ++ '>' :: k) = .ok url := by
    have hurlPart := part_append ('<' :: (name ++ x) ++ raw) url ('"' :: (y ++ '>' :: k))
    rw [byteLen_append, hrawLen] at hurlPart
    simpa using hurlPart
  rw [extractAttribute]
  simp only [bind, Except.bind]
  rw [show "href".toList ++ "=\"".toList = "href=\"".toList from rfl, attributeValue, hbyte]
  simp only [bind, Except.bind]
  rw [hvalue]
  simp only [hend, hpart]
  rfl

end Href

section Steps

variable {u : Unicode} {exempt : List Str} {r : Rule} {page p q ch : Page} {s a n c : Str}
  {P : Local}

def ruleHit (r : Rule) (name _ : Str) : Bool := lower name == ruleName r

def ruleConv (r : Rule) (_ : Str) (children : Page) : Page :=
  text r.mdOpen (append children (text r.mdClose .nil))

def linkText (attrs : Str) (children : Page) : Str :=
  ['['] ++ trim (stripAllTags (render children)) ++ "](".toList ++ (hrefOf attrs).getD [] ++ [')']

def linkConv (attrs : Str) (children : Page) : Page := text (linkText attrs children) .nil

/-- The tags of a rule are those of one element, and its markers hold none. -/
structure Regular (r : Rule) : Prop where
  named : Named (ruleName r)
  start : r.openPrefix = '<' :: ruleName r
  close : r.close = '<' :: '/' :: (ruleName r ++ ['>'])
  ascii : ∀ c ∈ r.openPrefix ++ r.close ++ r.mdOpen ++ r.mdClose, c.toNat < 128
  markers : ∀ c ∈ r.mdOpen ++ r.mdClose, c ≠ '<'

theorem regular_rules (hr : r ∈ rules) : Regular r := by
  have hall : ∀ r ∈ rules, (ruleName r != [] && (ruleName r).all Char.isAlphanum &&
      r.openPrefix == '<' :: ruleName r && r.close == '<' :: '/' :: (ruleName r ++ ['>']) &&
      (r.openPrefix ++ r.close ++ r.mdOpen ++ r.mdClose).all (fun c => c.toNat < 128) &&
      (r.mdOpen ++ r.mdClose).all fun c => c != '<') = true := by
    apply rules_all
    · repeat apply rules_cons
      rfl
    · decide +kernel
  have h := hall r hr
  simp only [Bool.and_eq_true, bne_iff_ne, beq_iff_eq, List.all_eq_true, decide_eq_true_iff] at h
  obtain ⟨⟨⟨⟨⟨hne, halnum⟩, hstart⟩, hclose⟩, hascii⟩, hmarkers⟩ := h
  exact ⟨⟨hne, halnum⟩, hstart, hclose, hascii, hmarkers⟩

theorem wellFormed_of_tame (h : Everywhere (Tame u exempt) page) : Everywhere WellFormed page :=
  everywhere_imp (P := Tame u exempt) (fun _ h => h.1) (fun _ h => h.1)
    (fun _ _ _ _ _ h => h.1) h

theorem keeps_render (h : Everywhere (Tame u exempt) page) : ∀ x ∈ render page, Keeps u x := by
  have hascii : ∀ x ∈ ['<', '>', '/'], Keeps u x :=
    WebContentSlices.keeps_of_all (by decide)
  simp only [List.forall_mem_cons, List.not_mem_nil] at hascii
  obtain ⟨hlt, hgt, hslash, -⟩ := hascii
  induction page with
  | nil => exact fun x hx => absurd hx List.not_mem_nil
  | char d rest ih => exact List.forall_mem_cons.mpr ⟨h.1.2, ih h.2⟩
  | tag body rest ih =>
    obtain ⟨⟨-, hbody, -⟩, hrest⟩ := h
    simp only [render, List.forall_mem_cons, List.forall_mem_append]
    exact ⟨hlt, hbody, hgt, ih hrest⟩
  | element n a c ch rest ihc ihr =>
    obtain ⟨⟨-, hkeeps, -⟩, hch, hrest⟩ := h
    simp only [List.forall_mem_append] at hkeeps
    simp only [render, List.forall_mem_cons, List.forall_mem_append]
    exact ⟨hlt, ⟨hkeeps.1.1, hkeeps.1.2⟩, hgt, ihc hch, hlt, hslash, hkeeps.2, hgt, ihr hrest⟩

/-- A rule meets its own elements only. -/
theorem own_rule (hr : r ∈ rules) (hexempt : ∀ b ∈ exempt, ¬ ruleName r <+: lower b)
    (h : Everywhere (Tame u exempt) page) :
    Everywhere (Own (inlineTarget r) (ruleHit r) (ruleConv r)) page := by
  have hreg := regular_rules hr
  refine everywhere_imp (P := Tame u exempt) (fun c h => h.1) ?_ ?_ h
  · rintro b ⟨⟨hlt, -⟩, -, hb, -⟩
    have hnot : ¬ ruleName r <+: lower b := hb.elim (hexempt b) (fun hall => hall r hr)
    show Skips r.openPrefix _
    rw [hreg.start]
    exact skips_open_tag hreg.named hlt hnot
  · rintro n a c ch hch ⟨⟨-, -, ⟨hlt, hgt⟩, hattrs, hsame⟩, -, hname, -⟩
    refine ⟨fun hhit => ?_, fun hhit => ?_⟩
    · have heq : lower n = ruleName r := beq_iff_eq.mp hhit
      refine ⟨?_, hgt, ?_, ?_, fun k => ?_⟩
      · show r.openPrefix <+: _
        rw [hreg.start, ← heq, List.append_assoc]
        refine List.cons_prefix_cons.mpr ⟨rfl, ?_⟩
        show lower n <+: lower (n ++ _)
        rw [lower_append]
        exact List.prefix_append _ _
      · show Skips r.close _
        rw [hreg.close]
        exact skips_close hreg.named (wellFormed_of_tame hch)
          (hname r hr (heq ▸ List.prefix_refl _)).2
      · show _ = r.close
        rw [hreg.close, ← heq, ← hsame]
        simp [lower]
      · show render _ = r.mdOpen ++ render ch ++ r.mdClose
        simp [ruleConv, render]
    · have hne : lower n ≠ ruleName r := by simpa [ruleHit] using hhit
      show Skips r.openPrefix _ ∧ Skips r.openPrefix _
      rw [hreg.start]
      exact ⟨skips_open_element hreg.named hlt hattrs fun hpre => hne (hname r hr hpre).1,
        skips_open_close hreg.named (notMem_close hsame (by decide) hlt)⟩

theorem find_nil {d : Char} : find (d :: s) [] = none := by
  simp [find]

theorem convertInlineTag_page (hr : r ∈ rules) (hexempt : ∀ b ∈ exempt, ¬ ruleName r <+: lower b)
    (h : Everywhere (Tame u exempt) page) : convertInlineTag u (render page) r =
      .ok (render (transform (ruleHit r) (ruleConv r) page)) := by
  have hreg := regular_rules hr
  have hascii := hreg.ascii
  simp only [List.forall_mem_append] at hascii
  obtain ⟨⟨⟨hopen, hclose⟩, -⟩, -⟩ := hascii
  have hnil : Pass (inlineTarget r) [] [] := .rest (by
    show find r.openPrefix [] = none
    rw [hreg.start]
    exact find_nil)
  have hpass := pass_render hreg.start (own_rule hr hexempt h) hnil
  rw [List.append_nil, List.append_nil] at hpass
  exact loop_of_pass (turns_inline hopen hclose) (keeps_render h) hpass

theorem everywhere_ruleConv (hchar : ∀ c ∈ r.mdOpen ++ r.mdClose, P.char c)
    (h : Everywhere P ch) : Everywhere P (ruleConv r a ch) := by
  obtain ⟨hopen, hclose⟩ := List.forall_mem_append.mp hchar
  exact everywhere_text hopen (everywhere_append.mpr ⟨h, everywhere_text hclose trivial⟩)

/-- What is asked of the contents of an element stays true of what they become. -/
theorem tame_children {exempt' : List Str} {ch' : Page}
    (hfree : ∀ e, Everywhere (Free e) ch → Everywhere (Free e) ch')
    (hunboxed : Everywhere Unboxed ch → Everywhere Unboxed ch')
    (h : (Tame u exempt).element n a c ch) : (Tame u exempt').element n a c ch' := by
  obtain ⟨hwf, hkeeps, hrules, hlink⟩ := h
  refine ⟨hwf, hkeeps, fun r hr hpre => ?_, fun his => ?_⟩
  · obtain ⟨heq, hch⟩ := hrules r hr hpre
    exact ⟨heq, hfree _ hch⟩
  · obtain ⟨hch, hboxes, hhref⟩ := hlink his
    exact ⟨hfree _ hch, hunboxed hboxes, hhref⟩

theorem tame_rule (hr : r ∈ rules) (h : Everywhere (Tame u exempt) page) :
    Everywhere (Tame u exempt) (transform (ruleHit r) (ruleConv r) page) := by
  have hreg := regular_rules hr
  have hascii := hreg.ascii
  simp only [List.forall_mem_append] at hascii
  refine everywhere_transform ?_ ?_ h
  · intro n a c ch _ _ hch
    refine everywhere_ruleConv (fun x hx => ⟨hreg.markers x hx, keeps_of_ascii ?_⟩) hch
    exact (List.mem_append.mp hx).elim (hascii.1.2 x) (hascii.2 x)
  · intro n a c ch _ helement
    refine tame_children (fun e hfree => ?_) (fun hunboxed => ?_) helement
    · exact everywhere_transform (fun _ _ _ _ _ _ h => everywhere_ruleConv (fun _ _ => trivial) h)
        (fun _ _ _ _ _ h => h) hfree
    · exact everywhere_transform (fun _ _ _ _ _ _ h => everywhere_ruleConv (fun _ _ => trivial) h)
        (fun _ _ _ _ _ h => h) hunboxed

/-- The elements of some rules are gone. -/
def Unhit (rs : List Rule) : Local where
  char _ := True
  tag _ := True
  element name _ _ _ := ∀ r ∈ rs, lower name ≠ ruleName r

theorem unhit_of_subset {rs rs' : List Rule} (hsub : rs' ⊆ rs) (h : Everywhere (Unhit rs) page) :
    Everywhere (Unhit rs') page :=
  everywhere_imp (P := Unhit rs) (fun _ _ => trivial) (fun _ _ => trivial)
    (fun _ _ _ _ _ hne r hr => hne r (hsub hr)) h

theorem unhit_rule {rs : List Rule} (hr : r ∈ rules) (h : Everywhere (Tame u exempt) page)
    (hrs : Everywhere (Unhit rs) page) :
    Everywhere (Unhit (r :: rs)) (transform (ruleHit r) (ruleConv r) page) := by
  induction page with
  | nil => trivial
  | char d rest ih => exact ⟨trivial, ih h.2 hrs.2⟩
  | tag body rest ih => exact ⟨trivial, ih h.2 hrs.2⟩
  | element n a c ch rest ihc ihr =>
    obtain ⟨⟨-, -, hname, -⟩, hch, hrest⟩ := h
    obtain ⟨hn, hunhit, hunhitRest⟩ := hrs
    rw [transform]
    split
    · rename_i hhit
      have heq : lower n = ruleName r := beq_iff_eq.mp hhit
      have hfree := (hname r hr (heq ▸ List.prefix_refl _)).2
      have hboth : Everywhere (Unhit (r :: rs)) ch := by
        refine everywhere_imp (P := (Free (ruleName r)).and (Unhit rs)) (fun _ _ => trivial)
          (fun _ _ => trivial) ?_ (everywhere_and hfree hunhit)
        exact fun _ _ _ _ _ h => List.forall_mem_cons.mpr h
      exact everywhere_append.mpr ⟨everywhere_ruleConv (fun _ _ => trivial) hboth,
        ihr hrest hunhitRest⟩
    · rename_i hhit
      have hne : lower n ≠ ruleName r := fun heq => hhit (beq_iff_eq.mpr heq)
      exact ⟨List.forall_mem_cons.mpr ⟨hne, hn⟩, ihc hch hunhit, ihr hrest hunhitRest⟩

theorem markdown_append : markdown (append p q) = markdown p ++ markdown q := by
  induction p with
  | nil => rfl
  | char c rest ih => simp [append, markdown, ih]
  | tag body rest ih => simp [append, markdown, ih]
  | element n a c ch rest _ ih => simp [append, markdown, ih]

theorem markdown_text (h : '>' ∉ s) : markdown (text s page) = s ++ markdown page := by
  induction s with
  | nil => rfl
  | cons c s ih =>
    rw [List.mem_cons, not_or] at h
    show (if c = '>' then [] else [c]) ++ markdown (text s page) = _
    rw [if_neg (Ne.symm h.1), ih h.2]
    rfl

/-- A rule whose elements can be met is the one for its name, and its markers survive. -/
theorem rule_cases (hr : r ∈ rules) : (∃ r' ∈ rules, ruleName r' <+: ruleName r ∧
    ruleName r ≠ ruleName r') ∨ '>' ∉ r.mdOpen ++ r.mdClose ∧ ruleFor (ruleName r) = some r := by
  obtain ⟨rs, hrs, hall⟩ : ∃ rs, rules = rs ∧ rs.all (fun r =>
      (rs.any fun r' => (ruleName r').isPrefixOf (ruleName r) && ruleName r != ruleName r') ||
        (! (r.mdOpen ++ r.mdClose).elem '>' &&
          rs.find? (fun r' => ruleName r' == ruleName r) == some r)) = true := by
    apply Exists.intro
    apply And.intro
    · repeat apply rules_cons
      rfl
    · decide +kernel
  rw [← hrs] at hall
  have h := List.all_eq_true.mp hall r hr
  simp only [Bool.or_eq_true, List.any_eq_true, Bool.and_eq_true, List.isPrefixOf_iff_prefix,
    bne_iff_ne, Bool.not_eq_true', beq_iff_eq] at h
  obtain ⟨r', hr', h⟩ | ⟨hmem, hfor⟩ := h
  · exact .inl ⟨r', hr', h⟩
  · refine .inr ⟨fun hin => ?_, hfor⟩
    rw [List.elem_eq_true_of_mem hin] at hmem
    cases hmem

theorem markup_of_rule (h : ruleFor (lower n) = some r) :
    markup n a s = r.mdOpen ++ s ++ r.mdClose := by
  simp only [markup, h]

theorem markup_of_link (h : ruleFor (lower n) = none) (hlink : isLink n a = true) :
    markup n a s = ['['] ++ trim s ++ "](".toList ++ (hrefOf a).getD [] ++ [')'] := by
  simp only [markup, h, hlink, ↓reduceIte]

theorem markup_of_other (h : ruleFor (lower n) = none) (hlink : isLink n a = false) :
    markup n a s = s := by
  simp only [markup, h, hlink, Bool.false_eq_true, ↓reduceIte]

theorem markdown_rule (hr : r ∈ rules) (h : Everywhere (Tame u exempt) page) :
    markdown (transform (ruleHit r) (ruleConv r) page) = markdown page := by
  induction page with
  | nil => rfl
  | char d rest ih => rw [transform, markdown, ih h.2, markdown]
  | tag body rest ih => rw [transform, markdown, ih h.2, markdown]
  | element n a c ch rest ihc ihr =>
    obtain ⟨⟨-, -, hname, -⟩, hch, hrest⟩ := h
    rw [transform]
    split
    · rename_i hhit
      have heq : lower n = ruleName r := beq_iff_eq.mp hhit
      obtain ⟨r', hr', hpre, hne⟩ | ⟨hmarkers, hfor⟩ := rule_cases hr
      · exact absurd (heq.symm.trans (hname r' hr' (heq ▸ hpre)).1) hne
      · rw [List.mem_append, not_or] at hmarkers
        rw [markdown_append, ihr hrest, ruleConv, markdown_text hmarkers.1, markdown_append,
          markdown_text hmarkers.2]
        show _ = markup n a (markdown ch) ++ markdown rest
        rw [markup_of_rule (heq ▸ hfor)]
        simp [markdown]
    · rw [markdown, ihc hch, ihr hrest, markdown]

end Steps

section Stripping

variable {u : Unicode} {exempt : List Str} {page ch : Page} {s k n a : Str} {rs : List Rule}

theorem go_tag (h : '<' ∉ s ∧ '>' ∉ s) (k : Str) :
    stripAllTags.go false ('<' :: (s ++ '>' :: k)) = stripAllTags.go false k := by
  have hinside : stripAllTags.go true (s ++ '>' :: k) = stripAllTags.go false k := by
    induction s with
    | nil => rfl
    | cons c s ih =>
      simp only [List.mem_cons, not_or] at h
      rw [List.cons_append, stripAllTags.go, if_neg (Ne.symm h.1.1), if_neg (Ne.symm h.2.1),
        if_pos rfl, ih ⟨h.1.2, h.2.2⟩]
  exact hinside

theorem notMem_stripAllTags (b : Bool) (s : Str) :
    '<' ∉ stripAllTags.go b s ∧ '>' ∉ stripAllTags.go b s := by
  induction s generalizing b with
  | nil => exact ⟨List.not_mem_nil, List.not_mem_nil⟩
  | cons c s ih =>
    rw [stripAllTags.go]
    split
    · exact ih true
    · split
      · exact ih false
      · rename_i hlt hgt
        split
        · exact ih b
        · simp only [List.mem_cons, not_or]
          exact ⟨⟨Ne.symm hlt, (ih b).1⟩, ⟨Ne.symm hgt, (ih b).2⟩⟩

/-- Parts without Markdown of their own. -/
def Silent : Local where
  char c := c ≠ '<'
  tag body := ('<' ∉ body ∧ '>' ∉ body) ∧ body ∉ breaks
  element name attrs close _ := ('<' ∉ name ++ attrs ∧ '>' ∉ name ++ attrs) ∧
    ('<' ∉ close ∧ '>' ∉ close) ∧ ∀ s, markup name attrs s = s

/-- Of such parts only the text is left. -/
theorem strip_render (h : Everywhere Silent page) (k : Str) :
    stripAllTags.go false (render page ++ k) = markdown page ++ stripAllTags.go false k := by
  induction page generalizing k with
  | nil => rfl
  | char c rest ih =>
    have hlt : c ≠ '<' := h.1
    rw [render, List.cons_append, stripAllTags.go, if_neg hlt, markdown]
    split
    · rw [ih h.2]
      rfl
    · rw [if_neg (by simp), ih h.2]
      rfl
  | tag body rest ih =>
    obtain ⟨⟨hbody, hbreak⟩, hrest⟩ := h
    have hassoc : render (.tag body rest) ++ k = '<' :: (body ++ '>' :: (render rest ++ k)) := by
      simp [render]
    rw [hassoc, go_tag hbody, ih hrest, markdown, if_neg hbreak, List.nil_append]
  | element n a c ch rest ihc ihr =>
    obtain ⟨⟨hopen, hclose, hmarkup⟩, hch, hrest⟩ := h
    have hassoc : render (.element n a c ch rest) ++ k = '<' :: (n ++ a ++ '>' ::
        (render ch ++ '<' :: ('/' :: c ++ '>' :: (render rest ++ k)))) := by
      simp [render]
    rw [hassoc, go_tag hopen, ihc hch, go_tag (by simpa using hclose), ihr hrest, markdown,
      hmarkup, List.append_assoc]

theorem stripAllTags_render (h : Everywhere Silent page) :
    stripAllTags (render page) = markdown page := by
  have hgo := strip_render h []
  rwa [List.append_nil, stripAllTags.go, List.append_nil] at hgo

theorem ruleFor_eq_none (h : ∀ r ∈ rules, lower n ≠ ruleName r) : ruleFor (lower n) = none := by
  rw [ruleFor, List.find?_eq_none]
  intro r hr heq
  exact h r hr (beq_iff_eq.mp heq).symm

theorem silent_of (h : Everywhere (Tame u []) page)
    (hmarkup : Everywhere ⟨fun _ => True, fun _ => True, fun n a _ _ => ∀ s, markup n a s = s⟩
      page) : Everywhere Silent page := by
  refine everywhere_imp (P := (Tame u []).and ⟨_, _, _⟩) (fun c h => h.1.1) ?_ ?_
    (everywhere_and h hmarkup)
  · rintro b ⟨⟨hwf, -, hrules, -⟩, -⟩
    refine ⟨hwf, fun hbreak => ?_⟩
    have hall : breaks.all (fun b =>
        rules.any fun r => (ruleName r).isPrefixOf (lower b)) = true := by decide
    obtain ⟨r, hr, hpre⟩ := List.any_eq_true.mp (List.all_eq_true.mp hall b hbreak)
    exact hrules.elim (by simp) fun hnot => hnot r hr (List.isPrefixOf_iff_prefix.mp hpre)
  · rintro n a c ch - ⟨⟨⟨-, -, hopen, -, hsame⟩, -⟩, hmarkup⟩
    exact ⟨hopen, ⟨notMem_close hsame (by decide) hopen.1, notMem_close hsame (by decide) hopen.2⟩,
      hmarkup⟩

/-- The contents of a link, when only boxes and spans are left of the rules. -/
theorem silent_link (h : Everywhere (Tame u []) page)
    (hunhit : Everywhere (Unhit (blockRules ++ textRules)) page)
    (hfree : Everywhere (Free "a".toList) page) (hboxes : Everywhere Unboxed page) :
    Everywhere Silent page := by
  refine silent_of h (everywhere_imp (P := ((Unhit (blockRules ++ textRules)).and
    (Free "a".toList)).and Unboxed) (fun _ _ => trivial) (fun _ _ => trivial) ?_
    (everywhere_and (everywhere_and hunhit hfree) hboxes))
  rintro n a c ch - ⟨⟨hrules, hlink⟩, hdiv, hsection⟩ s
  have hnot : isLink n a = false := by
    rw [isLink, Bool.and_eq_false_iff]
    exact .inl (beq_eq_false_iff_ne.mpr hlink)
  by_cases hspan : lower n = "span".toList
  · have hfor : ruleFor (lower n) = some (.of "<span" "</span>" "" "") := by
      rw [hspan]
      decide
    rw [markup_of_rule hfor]
    simp [Rule.of]
  · refine markup_of_other (ruleFor_eq_none fun r hr => ?_) hnot
    obtain hr | hr := List.mem_append.mp hr
    · exact hrules r hr
    · have hall : boxRules.all (fun r => ["div".toList, "span".toList, "section".toList].elem
          (ruleName r)) = true := by decide
      have hmem := List.mem_of_elem_eq_true (List.all_eq_true.mp hall r hr)
      rintro heq
      simp only [List.mem_cons, List.not_mem_nil, or_false] at hmem
      obtain hname | hname | hname := hmem
      · exact hdiv (heq.trans hname)
      · exact hspan (heq.trans hname)
      · exact hsection (heq.trans hname)

/-- No element is a link. -/
def Unlinked : Local where
  char _ := True
  tag _ := True
  element name attrs _ _ := isLink name attrs = false

theorem silent_end (h : Everywhere (Tame u []) page) (hunhit : Everywhere (Unhit rules) page)
    (hlinks : Everywhere Unlinked page) : Everywhere Silent page := by
  refine silent_of h (everywhere_imp (P := (Unhit rules).and Unlinked) (fun _ _ => trivial)
    (fun _ _ => trivial) ?_ (everywhere_and hunhit hlinks))
  rintro n a c ch - ⟨hrules, hlink⟩ s
  exact markup_of_other (ruleFor_eq_none hrules) hlink

end Stripping

section Links

variable {u : Unicode} {exempt : List Str} {page ch : Page} {n a c : Str} {rs : List Rule}
  {P : Local}

theorem isLink_iff : isLink n a = true ↔ lower n = "a".toList ∧ a.head? = some ' ' := by
  rw [isLink, Bool.and_eq_true, beq_iff_eq, beq_iff_eq]

theorem named_link : Named "a".toList := ⟨by decide, by simp⟩

theorem own_link (h : Everywhere (Tame u exempt) page) :
    Everywhere (Own (linkTarget u) isLink linkConv) page := by
  refine everywhere_imp (P := Tame u exempt) (fun c h => h.1) ?_ ?_ h
  · rintro b ⟨⟨hlt, -⟩, -, -, hnot⟩
    refine skips_tag (by simpa using hlt) fun k hp => ?_
    rw [lower_append, List.append_assoc] at hp
    exact hnot (prefix_of_notMem (by decide : '>' ∉ "a ".toList) hp)
  · rintro n a c ch hch ⟨⟨⟨d, s, rfl, hd⟩, hspace, ⟨hlt, hgt⟩, -, hsame⟩, hkeeps, -, hlink⟩
    refine ⟨fun hhit => ?_, fun hhit => ⟨?_, ?_⟩⟩
    · obtain ⟨hfree, -, hhref⟩ := hlink hhit
      obtain ⟨hname, hhead⟩ := isLink_iff.mp hhit
      refine ⟨?_, hgt, skips_close named_link (wellFormed_of_tame hch) hfree, ?_, fun k => ?_⟩
      · obtain ⟨attrs, rfl⟩ := List.head?_eq_some_iff.mp hhead
        show "<a ".toList <+: '<' :: lower (d :: s ++ ' ' :: attrs ++ ['>'])
        rw [List.append_assoc, lower_append, hname]
        exact ⟨lower (attrs ++ ['>']), rfl⟩
      · show '<' :: '/' :: lower (c ++ ['>']) = "</a>".toList
        rw [lower_append, hsame, hname]
        rfl
      · obtain ⟨url, hurl⟩ := Option.isSome_iff_exists.mp hhref
        refine ⟨url, extractAttribute_href ?_ hname hurl, ?_⟩
        · exact fun x hx => hkeeps x (List.mem_append_left _ hx)
        · rw [linkConv, render_text, linkText, hurl]
          exact List.append_nil _
    · refine skips_tag (by simpa using hlt) fun k hp => ?_
      obtain ⟨hd', hp⟩ := List.cons_prefix_cons.mp hp
      cases s with
      | nil =>
        have hhead : a.head? ≠ some ' ' := by
          intro hhead
          rw [isLink_iff.mpr ⟨by rw [lower, List.map_singleton, ← hd']; rfl, hhead⟩] at hhit
          cases hhit
        cases a with
        | nil => exact absurd (List.cons_prefix_cons.mp hp).1 (by decide)
        | cons e a =>
          refine hhead (congrArg some ?_)
          have he : e.toLower = ' ' := (List.cons_prefix_cons.mp hp).1.symm
          exact (toLower_eq_self (he ▸ by decide)).symm.trans he
      | cons e s =>
        have he : e.toLower = ' ' := (List.cons_prefix_cons.mp hp).1.symm
        have hself : e = ' ' := (toLower_eq_self (he ▸ by decide)).symm.trans he
        exact hspace (hself ▸ List.mem_cons_of_mem _ List.mem_cons_self)
    · refine skips_tag (by simpa using notMem_close hsame (by decide) hlt) fun k hp => ?_
      exact absurd (List.cons_prefix_cons.mp hp).1 (by decide)

theorem convertLinks_page (h : Everywhere (Tame u exempt) page) :
    convertLinks u (render page) = .ok (render (transform isLink linkConv page)) := by
  have hnil : Pass (linkTarget u) [] [] := .rest find_nil
  have hopen : (linkTarget u).openPrefix = '<' :: "a ".toList := rfl
  have hpass := pass_render hopen (own_link h) hnil
  rw [List.append_nil, List.append_nil] at hpass
  exact loop_of_pass turns_link (keeps_render h) hpass

theorem hrefOf_subset {url : Str} (h : hrefOf a = some url) : url ⊆ a := by
  obtain ⟨x, raw, y, rfl, -⟩ := exists_of_hrefOf h
  intro c hc
  simp [hc]

/-- The characters of a link are those of its markers, its contents and its attributes. -/
theorem forall_mem_linkText {p : Char → Prop} (hmarkers : ∀ x ∈ "[]()".toList, p x)
    (hcontent : ∀ x ∈ stripAllTags (render ch), p x) (hattrs : ∀ x ∈ a, p x) :
    ∀ x ∈ linkText a ch, p x := by
  have hurl : ∀ x ∈ (hrefOf a).getD [], p x := by
    cases h : hrefOf a with
    | none => exact fun x hx => absurd hx List.not_mem_nil
    | some url => exact fun x hx => hattrs x (hrefOf_subset h hx)
  have htrim : ∀ x ∈ trim (stripAllTags (render ch)), p x := fun x hx =>
    hcontent x ((Trimming.trim_isInfix _).subset hx)
  obtain ⟨hopen, hbetween, hclose⟩ : p '[' ∧ (∀ x ∈ "](".toList, p x) ∧ p ')' := by
    simpa [and_assoc] using hmarkers
  simp only [linkText, List.forall_mem_append, List.forall_mem_singleton]
  exact ⟨⟨⟨⟨hopen, htrim⟩, hbetween⟩, hurl⟩, hclose⟩

theorem everywhere_linkConv (h : ∀ x ∈ linkText a ch, P.char x) : Everywhere P (linkConv a ch) :=
  everywhere_text h trivial

theorem tame_link (h : Everywhere (Tame u exempt) page) :
    Everywhere (Tame u exempt) (transform isLink linkConv page) := by
  refine everywhere_transform ?_ ?_ h
  · rintro n a c ch - ⟨⟨-, -, ⟨hlt, -⟩, -, -⟩, hkeeps, -, -⟩ hch
    rw [List.forall_mem_append, List.forall_mem_append] at hkeeps
    rw [List.mem_append, not_or] at hlt
    have hmarkers : ∀ x ∈ "[]()".toList, x ≠ '<' := by simp
    refine everywhere_linkConv (forall_mem_linkText ?_ ?_ ?_)
    · exact fun x hx => ⟨hmarkers x hx, WebContentSlices.keeps_of_all (by decide) x hx⟩
    · intro x hx
      refine ⟨?_, keeps_render hch x (WebContentSlices.stripAllTags_subset false _ hx)⟩
      rintro rfl
      exact (notMem_stripAllTags false _).1 hx
    · intro x hx
      refine ⟨?_, hkeeps.1.2 x hx⟩
      rintro rfl
      exact hlt.2 hx
  · intro n a c ch _ helement
    have hempty : ∀ {Q : Local}, (∀ x, Q.char x) →
        (∀ n a c ch ch', Q.element n a c ch → Q.element n a c ch') →
        Everywhere Q ch → Everywhere Q (transform isLink linkConv ch) := by
      intro Q hchar hstays hQ
      exact everywhere_transform
        (fun _ _ _ _ _ _ _ => everywhere_linkConv fun x _ => hchar x)
        (fun n a c ch _ h => hstays n a c ch _ h) hQ
    exact tame_children (fun e => hempty (fun _ => trivial) fun _ _ _ _ _ h => h)
      (hempty (fun _ => trivial) fun _ _ _ _ _ h => h) helement

theorem unhit_link (h : Everywhere (Unhit rs) page) :
    Everywhere (Unhit rs) (transform isLink linkConv page) :=
  everywhere_transform (fun _ _ _ _ _ _ _ => everywhere_linkConv fun _ _ => trivial)
    (fun _ _ _ _ _ h => h) h

theorem unlinked_link : Everywhere Unlinked (transform isLink linkConv page) := by
  induction page with
  | nil => trivial
  | char d rest ih => exact ⟨trivial, ih⟩
  | tag body rest ih => exact ⟨trivial, ih⟩
  | element n a c ch rest ihc ihr =>
    rw [transform]
    split
    · exact everywhere_append.mpr ⟨everywhere_linkConv fun _ _ => trivial, ihr⟩
    · rename_i hhit
      exact ⟨Bool.eq_false_iff.mpr hhit, ihc, ihr⟩

theorem ruleFor_link : ruleFor "a".toList = none := by decide

theorem markdown_link (h : Everywhere (Tame u []) page)
    (hunhit : Everywhere (Unhit (blockRules ++ textRules)) page) :
    markdown (transform isLink linkConv page) = markdown page := by
  induction page with
  | nil => rfl
  | char d rest ih => rw [transform, markdown, ih h.2 hunhit.2, markdown]
  | tag body rest ih => rw [transform, markdown, ih h.2 hunhit.2, markdown]
  | element n a c ch rest ihc ihr =>
    obtain ⟨⟨⟨-, -, ⟨-, hgt⟩, -⟩, -, -, hlink⟩, hch, hrest⟩ := h
    obtain ⟨-, hunhit, hunhitRest⟩ := hunhit
    rw [transform]
    split
    · rename_i hhit
      obtain ⟨hfree, hboxes, -⟩ := hlink hhit
      have hfor : ruleFor (lower n) = none := by
        rw [(isLink_iff.mp hhit).1]
        exact ruleFor_link
      have hmarkers : ∀ x ∈ "[]()".toList, x ≠ '>' := by simp
      have htext : '>' ∉ linkText a ch := by
        intro hin
        refine forall_mem_linkText (p := (· ≠ '>')) hmarkers ?_ ?_ '>' hin rfl
        · rintro x hx rfl
          exact (notMem_stripAllTags false _).2 hx
        · rintro x hx rfl
          exact hgt (List.mem_append_right _ hx)
      rw [markdown_append, ihr hrest hunhitRest, linkConv, markdown_text htext]
      show _ = markup n a (markdown ch) ++ markdown rest
      rw [markup_of_link hfor hhit, ← stripAllTags_render (silent_link hch hunhit hfree hboxes)]
      simp [linkText, markdown]
    · rw [markdown, ihc hch hunhit, ihr hrest hunhitRest, markdown]

end Links

section Breaks

variable {u : Unicode} {exempt bs : List Str} {page : Page} {b n a : Str} {rs : List Rule}

theorem brackets_of_breaks (hb : b ∈ breaks) :
    ('<' ∉ b ∧ '>' ∉ b) ∧ ∃ s, b = 'b' :: 'r' :: s := by
  have hall : breaks.all (fun b =>
      !b.elem '<' && !b.elem '>' && "br".toList.isPrefixOf b) = true := by decide
  have h := List.all_eq_true.mp hall b hb
  simp only [Bool.and_eq_true, Bool.not_eq_true', List.isPrefixOf_iff_prefix] at h
  obtain ⟨⟨hlt, hgt⟩, s, rfl⟩ := h
  refine ⟨⟨fun hin => ?_, fun hin => ?_⟩, s, rfl⟩
  · rw [List.elem_eq_true_of_mem hin] at hlt
    cases hlt
  · rw [List.elem_eq_true_of_mem hin] at hgt
    cases hgt

def boldRule : Rule := .of "<b" "</b>" "**" "**"

/-- The name of an element is not that of a line break: it would begin with that of bold text. -/
theorem apart_of_tame (hb : b ∈ breaks) (h : Everywhere (Tame u exempt) page) :
    Everywhere (Apart b) page := by
  obtain ⟨-, s, rfl⟩ := brackets_of_breaks hb
  refine everywhere_imp (P := Tame u exempt) (fun _ _ => trivial) (fun _ _ => trivial) ?_ h
  rintro n a c ch - ⟨⟨⟨d, t, rfl, -⟩, -, -, hattrs, -⟩, -, hrules, -⟩
  refine ⟨fun heq => ?_, by simp⟩
  obtain ⟨rfl, htail⟩ := List.cons_eq_cons.mp heq
  have hbold : boldRule ∈ rules := by decide
  have hname : lower ('b' :: t) = ['b'] := (hrules boldRule hbold ⟨lower t, rfl⟩).1
  obtain rfl : t = [] := List.map_eq_nil_iff.mp (List.cons_eq_cons.mp hname).2
  have ha : a = 'r' :: s := htail
  exact absurd (hattrs 'r' (by rw [ha]; rfl)) (by decide)

theorem tame_break (h : Everywhere (Tame u (b :: bs)) page) :
    Everywhere (Tame u bs) (replaceTag b ['\n'] page) := by
  have hne : '\n' ≠ '<' := by decide
  have hline : (Tame u bs).char '\n' := ⟨hne, keeps_of_ascii (by decide)⟩
  induction page with
  | nil => trivial
  | char d rest ih => exact ⟨h.1, ih h.2⟩
  | tag body rest ih =>
    obtain ⟨⟨hwf, hkeeps, hrules, hlink⟩, hrest⟩ := h
    rw [replaceTag]
    split
    · exact ⟨hline, ih hrest⟩
    · rename_i hne
      refine ⟨⟨hwf, hkeeps, hrules.imp_left fun hin => ?_, hlink⟩, ih hrest⟩
      exact (List.mem_cons.mp hin).resolve_left hne
  | element n a c ch rest ihc ihr =>
    obtain ⟨helement, hch, hrest⟩ := h
    refine ⟨tame_children (fun e => ?_) ?_ helement, ihc hch, ihr hrest⟩
    · exact everywhere_replaceTag (fun _ _ => trivial) fun _ _ _ _ h => h
    · exact everywhere_replaceTag (fun _ _ => trivial) fun _ _ _ _ h => h

theorem markdown_break (hb : b ∈ breaks) :
    markdown (replaceTag b ['\n'] page) = markdown page := by
  induction page with
  | nil => rfl
  | char d rest ih => rw [replaceTag, markdown, ih, markdown]
  | tag body rest ih =>
    rw [replaceTag, markdown]
    split
    · rename_i heq
      rw [heq, if_pos hb]
      show (if '\n' = '>' then [] else ['\n']) ++ markdown (replaceTag b ['\n'] rest) = _
      rw [if_neg (by decide), ih]
    · rw [markdown, ih]
  | element n a c ch rest ihc ihr => rw [replaceTag, markdown, ihc, ihr, markdown]

/-- The line breaks become line ends. -/
theorem replaceBreaks_page (hbs : bs ⊆ breaks) (h : Everywhere (Tame u bs) page)
    (hunhit : Everywhere (Unhit rs) page) :
    ∃ page', bs.foldl (fun s b => replaceText s ('<' :: (b ++ ['>'])) ['\n']) (render page) =
      render page' ∧ Everywhere (Tame u []) page' ∧ markdown page' = markdown page ∧
      Everywhere (Unhit rs) page' := by
  induction bs generalizing page with
  | nil => exact ⟨page, rfl, h, rfl, hunhit⟩
  | cons b bs ih =>
    obtain ⟨hb, hbs⟩ := List.cons_subset.mp hbs
    have hrender := @replaceText_render b ['\n'] page (brackets_of_breaks hb).1.2
      (wellFormed_of_tame h) (apart_of_tame hb h) []
    rw [List.append_nil, show replaceText [] _ _ = [] from rfl, List.append_nil] at hrender
    have hstill : Everywhere (Unhit rs) (replaceTag b ['\n'] page) :=
      everywhere_replaceTag (fun _ _ => trivial) (fun _ _ _ _ h => h) hunhit
    obtain ⟨page', hfold, htame, hmarkdown, hunhit'⟩ := ih hbs (tame_break h) hstill
    refine ⟨page', ?_, htame, hmarkdown.trans (markdown_break hb), hunhit'⟩
    rw [List.foldl_cons, hrender, hfold]

end Breaks

section Conversion

variable {u : Unicode} {exempt : List Str} {page : Page} {rs done : List Rule}

theorem unlinked_rule {r : Rule} (h : Everywhere Unlinked page) :
    Everywhere Unlinked (transform (ruleHit r) (ruleConv r) page) :=
  everywhere_transform (fun _ _ _ _ _ _ h => everywhere_ruleConv (fun _ _ => trivial) h)
    (fun _ _ _ _ _ h => h) h

/-- The passes of some rules, one after the other. -/
theorem convertAll_page (hrs : rs ⊆ rules)
    (hexempt : ∀ r ∈ rs, ∀ b ∈ exempt, ¬ ruleName r <+: lower b)
    (h : Everywhere (Tame u exempt) page) (hdone : Everywhere (Unhit done) page) :
    ∃ page', convertAll u rs (render page) = .ok (render page') ∧
      Everywhere (Tame u exempt) page' ∧ markdown page' = markdown page ∧
      Everywhere (Unhit (rs ++ done)) page' ∧
      (Everywhere Unlinked page → Everywhere Unlinked page') := by
  induction rs generalizing page done with
  | nil => exact ⟨page, rfl, h, rfl, hdone, id⟩
  | cons r rs ih =>
    obtain ⟨hr, hrs⟩ := List.cons_subset.mp hrs
    obtain ⟨hex, hexempt⟩ := List.forall_mem_cons.mp hexempt
    obtain ⟨page', hall, htame, hmarkdown, hunhit, hlinks⟩ :=
      ih hrs hexempt (tame_rule hr h) (unhit_rule hr h hdone)
    refine ⟨page', ?_, htame, hmarkdown.trans (markdown_rule hr h), ?_,
      fun hlink => hlinks (unlinked_rule hlink)⟩
    · rw [convertAll, convertInlineTag_page hr hex h]
      exact hall
    · exact unhit_of_subset (by simp) hunhit

theorem breaks_exempt : ∀ r ∈ blockRules, ∀ b ∈ breaks, ¬ ruleName r <+: lower b := by
  have hall : blockRules.all (fun r => breaks.all fun b =>
      !(ruleName r).isPrefixOf (lower b)) = true := by decide
  intro r hr b hb hpre
  have h := List.all_eq_true.mp (List.all_eq_true.mp hall r hr) b hb
  rw [List.isPrefixOf_iff_prefix.mpr hpre] at h
  cases h

/-- `<p>a<br><a href="u">b</a></p>` -/
def linePage : Page :=
  .element "p".toList [] "p".toList
    (.char 'a' (.tag "br".toList
      (.element "a".toList " href=\"u\"".toList "a".toList (.char 'b' .nil) .nil))) .nil

theorem tame_linePage : Everywhere (Tame kelvinTables breaks) linePage := by decide +kernel

/-- `<blockquote>q</blockquote>` -/
def quotePage : Page :=
  .element "blockquote".toList [] "blockquote".toList (.char 'q' .nil) .nil

end Conversion

end Clawreform.Runtime.OwnElements
