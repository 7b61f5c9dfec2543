import Clawreform.Channels.TelegramHtml

namespace Clawreform.Channels.TelegramReading

open Clawreform.Lib.Text Clawreform.Lib.Infix Clawreform.Lib.Rewriting Clawreform.Lib.Pieces
open Clawreform.Channels.Formatter Clawreform.Channels.TelegramMarks
open Clawreform.Channels.TelegramHtml

section Readings

variable {toks toks' next front behind inner : List Tok} {a b u r x y n s out : Str} {c d : Char}
  {t t' : Tok} {k : Span}

def brackets : Str := ['[', ']', '(', ')']

def linkOpen : Str := '<' :: "a href=\"".toList

theorem linkTag_eq (url : Str) : linkTag url = linkOpen ++ (url ++ "\">".toList) :=
  List.append_assoc ..

theorem notMem_opening (hc : c ∈ brackets) : c ∉ (Tok.opening k).html := by
  simp only [brackets, List.mem_cons, List.not_mem_nil, or_false] at hc
  obtain rfl | rfl | rfl | rfl := hc <;> cases k <;> decide

theorem notMem_closing (hc : c ∈ brackets) : c ∉ (Tok.closing k).html := by
  simp only [brackets, List.mem_cons, List.not_mem_nil, or_false] at hc
  obtain rfl | rfl | rfl | rfl := hc <;> cases k <;> decide

theorem notMem_linkParts (hc : c ∈ brackets) :
    c ∉ linkOpen ∧ c ∉ "\">".toList ∧ c ∉ ['<', '/', 'a', '>'] := by
  simp only [brackets, List.mem_cons, List.not_mem_nil, or_false] at hc
  obtain rfl | rfl | rfl | rfl := hc <;> decide

/-- A bracket in the HTML is one in the text, outside of the tags or in an address. -/
theorem htmlOf_eq_append_cons (hc : c ∈ brackets) (h : htmlOf toks = x ++ c :: y) :
    (∃ front behind, toks = front ++ .char c :: behind ∧ x = htmlOf front ∧ y = htmlOf behind) ∨
      ∃ front u v behind, toks = front ++ .link (u ++ c :: v) :: behind ∧
        x = htmlOf front ++ (linkOpen ++ u) := by
  obtain ⟨front, t, behind, p, q, rfl, ht, rfl, rfl⟩ := flatMap_eq_append_cons h
  have hmem : c ∈ t.html := ht ▸ List.mem_append_right _ (List.mem_cons_self ..)
  obtain ⟨hopen, hclose, hunlink⟩ := notMem_linkParts hc
  cases t with
  | char d =>
    obtain ⟨rfl, hsame⟩ | ⟨z, -, hz⟩ := List.cons_eq_append_iff.mp ht
    · injection hsame with hd hq
      subst hd hq
      exact .inl ⟨front, behind, rfl, List.append_nil _, rfl⟩
    · cases z <;> cases hz
  | opening k => exact absurd hmem (notMem_opening hc)
  | closing k => exact absurd hmem (notMem_closing hc)
  | unlink url => exact absurd hmem hunlink
  | link url =>
    have htag := (linkTag_eq url).symm.trans ht
    obtain ⟨u, v, rfl, rfl, -⟩ := middle_eq_append_cons hopen hclose htag
    exact .inr ⟨front, u, v, behind, rfl, rfl⟩

theorem htmlOf_cut (hlinks : ∀ u, .link u ∉ toks) (hc : c ∈ brackets)
    (h : htmlOf toks = x ++ c :: y) :
    ∃ front behind, toks = front ++ .char c :: behind ∧ x = htmlOf front ∧ y = htmlOf behind := by
  refine (htmlOf_eq_append_cons hc h).resolve_right ?_
  rintro ⟨front, u, v, behind, rfl, -⟩
  exact hlinks _ (List.mem_append_right _ (List.mem_cons_self ..))

theorem html_ne_nil (t : Tok) : t.html ≠ [] := by
  cases t <;> exact List.cons_ne_nil _ _

theorem htmlOf_eq_nil (h : htmlOf toks = []) : toks = [] := by
  cases toks with
  | nil => rfl
  | cons t toks =>
    rw [htmlOf_cons, List.append_eq_nil_iff] at h
    exact absurd h.1 (html_ne_nil t)

theorem chars_or_markup (h : ∀ c, .char c ∈ inner → c ∉ specials) :
    inner = chars (htmlOf inner) ∨ ∃ x y, htmlOf inner = x ++ '<' :: y ∧ '>' ∉ x := by
  induction inner with
  | nil => exact .inl rfl
  | cons t inner ih =>
    cases t with
    | char c =>
      refine (ih fun d hd => h d (.tail _ hd)).imp (congrArg (Tok.char c :: ·)) ?_
      rintro ⟨x, y, heq, hx⟩
      refine ⟨c :: x, y, congrArg (c :: ·) heq, ?_⟩
      rw [List.mem_cons, not_or]
      refine ⟨?_, hx⟩
      rintro rfl
      exact h '>' (.head _) (by decide)
    | opening k => exact .inr ⟨[], _, rfl, List.not_mem_nil⟩
    | closing k => exact .inr ⟨[], _, rfl, List.not_mem_nil⟩
    | link url => exact .inr ⟨[], _, rfl, List.not_mem_nil⟩
    | unlink url => exact .inr ⟨[], _, rfl, List.not_mem_nil⟩

/-- A tag begins inside the address of a link. -/
def Broken (s : Str) : Prop := ∃ p x y, s = p ++ (linkOpen ++ (x ++ '<' :: y)) ∧ '[' ∉ p ∧ '>' ∉ x

theorem htmlLink_linkOpen (b u : Str) : ∃ z, htmlLink b u = linkOpen ++ (u ++ '"' :: z) := by
  refine ⟨'>' :: (b ++ ['<', '/', 'a', '>']), ?_⟩
  have hclose : "\">".toList = ['"', '>'] := by decide
  rw [htmlLink_eq, linkTag_eq, hclose]
  simp only [List.append_assoc, List.cons_append, List.nil_append]

theorem htmlLink_cons (b u : Str) : ∃ z, htmlLink b u = '<' :: z := by
  obtain ⟨z, hz⟩ := htmlLink_linkOpen b u
  exact ⟨_, hz⟩

theorem Broken.turn (h : Broken s) (hturn : linkTurn htmlLink s = some out) : Broken out := by
  obtain ⟨p, x, y, rfl, hp, hx⟩ := h
  obtain ⟨a, b, u, r, hlinking, rfl⟩ := linkTurn_eq_some.mp hturn
  have hopen : '[' ∉ linkOpen := by decide
  -- The bracket stands behind what opens the link.
  obtain ⟨z, rfl, hrest⟩ : ∃ z, a = p ++ (linkOpen ++ z) ∧ x ++ '<' :: y = z ++ '[' :: _ := by
    have heq := hlinking.eq
    rw [← List.append_assoc] at heq
    obtain ⟨z, rfl, hz⟩ | ⟨z, hpre, hz⟩ := List.append_eq_append_iff.mp heq
    · exact ⟨z, List.append_assoc .., hz⟩
    · obtain ⟨rfl, hz⟩ | ⟨z, rfl, -⟩ := List.cons_eq_append_iff.mp hz
      · refine ⟨[], ?_, hz.symm⟩
        rw [List.append_nil] at hpre ⊢
        exact hpre.symm
      · have hmem : '[' ∈ p ++ linkOpen := hpre ▸ List.mem_append_right _ (List.mem_cons_self ..)
        exact absurd ((List.mem_append.mp hmem).resolve_left hp) hopen
  obtain ⟨-, hlt, -⟩ | ⟨w, rfl, -⟩ | ⟨w, rfl, -⟩ := append_cons_cases hrest
  · exact absurd hlt (by decide)
  · obtain ⟨v, hv⟩ := htmlLink_cons b u
    refine ⟨p, z, v ++ r, ?_, hp, fun hgt => hx (List.mem_append_left _ hgt)⟩
    rw [hv]
    simp only [List.append_assoc, List.cons_append]
  · refine ⟨p, x, w ++ htmlLink b u ++ r, ?_, hp, hx⟩
    simp only [List.append_assoc, List.cons_append]

theorem Broken.rewrites (h : Broken s) (hs : Rewrites (linkTurn htmlLink) s out) : Broken out := by
  induction hs with
  | stays _ => exact h
  | moves hturn _ ih => exact ih (h.turn hturn)

/-- What the links are read off: nothing is escaped, and the links so far are in front of the
brackets. -/
structure Readable (toks : List Tok) : Prop where
  quiet : ∀ c, .char c ∈ toks → c ∉ specials
  links : ∀ u, .link u ∈ toks → '>' ∉ u ∧ ')' ∉ u
  unlinks : ∀ u, .unlink u ∈ toks → ')' ∉ u
  behind : ∀ front behind, toks = front ++ .char '[' :: behind → ∀ u, .link u ∉ behind

theorem mem_htmlOf (h : .char c ∈ toks) : c ∈ htmlOf toks :=
  List.mem_flatMap.mpr ⟨_, h, List.mem_singleton_self c⟩

theorem mem_chars : .char c ∈ chars s ↔ c ∈ s := by
  simp [chars]

/-- The tokens a link is made of, or else markup that its address would have. -/
theorem Readable.cut (h : Readable toks) (hlinking : Linking a b u r (htmlOf toks)) :
    (∃ front body behind, a = htmlOf front ∧ b = htmlOf body ∧ r = htmlOf behind ∧
      toks = front ++ .char '[' ::
        (body ++ .char ']' :: .char '(' :: (chars u ++ .char ')' :: behind))) ∨
    Broken (a ++ htmlLink b u ++ r) := by
  have heq := hlinking.eq
  have hmiddle : "](".toList = [']', '('] := by decide
  rw [hmiddle, List.append_assoc] at heq
  obtain ⟨front, rest, rfl, rfl, hrest⟩ | ⟨front, v, w, rest, rfl, rfl⟩ :=
    htmlOf_eq_append_cons (c := '[') (by decide) heq
  swap
  · obtain ⟨z, hz⟩ := htmlLink_cons b u
    have hbracket := hlinking.bracket
    rw [List.mem_append, not_or] at hbracket
    refine .inr ⟨htmlOf front, v, z ++ r, ?_, hbracket.1, ?_⟩
    · rw [hz]
      simp only [List.append_assoc, List.cons_append]
    · have hgt := (h.links (v ++ '[' :: w) (by simp)).1
      exact fun hmem => hgt (List.mem_append_left _ hmem)
  have hlinks := h.behind front rest rfl
  obtain ⟨body, rest, rfl, rfl, hparen⟩ := htmlOf_cut hlinks (c := ']') (by decide) hrest.symm
  have hlinks : ∀ v, .link v ∉ rest := fun v hv => hlinks v (by simp [hv])
  obtain ⟨none, rest, rfl, hnil, hurl⟩ :=
    htmlOf_cut (x := []) hlinks (c := '(') (by decide) hparen.symm
  cases htmlOf_eq_nil hnil.symm
  have hlinks : ∀ v, .link v ∉ rest := fun v hv => hlinks v (.tail _ hv)
  obtain ⟨inner, behind, rfl, rfl, rfl⟩ := htmlOf_cut hlinks (c := ')') (by decide) hurl.symm
  have hquiet : ∀ c, .char c ∈ inner → c ∉ specials := fun c hc => h.quiet c (by simp [hc])
  obtain hchars | ⟨x, y, hxy, hx⟩ := chars_or_markup hquiet
  · rw [← hchars]
    exact .inl ⟨front, body, behind, rfl, rfl, rfl, rfl⟩
  · obtain ⟨z, hz⟩ := htmlLink_linkOpen (htmlOf body) (htmlOf inner)
    refine .inr ⟨htmlOf front, x, y ++ '"' :: (z ++ htmlOf behind), ?_, hlinking.bracket, hx⟩
    rw [hz, hxy]
    simp only [List.append_assoc, List.cons_append]

theorem Readable.step (h : Readable toks) (hstep : LinkStep toks next) : Readable next := by
  obtain @⟨front, body, behind, url, hfront, hbody, hurl⟩ := hstep
  have hbrackets : .char '[' ∉ front := fun hmem => hfront (mem_htmlOf hmem)
  have hlinks := h.behind front _ rfl
  constructor
  · intro c hc
    refine h.quiet c ?_
    simp only [List.mem_append, List.mem_cons, reduceCtorEq, false_or] at hc ⊢
    tauto
  · intro u hu
    by_cases hold : .link u ∈ front
    · exact h.links u (List.mem_append_left _ hold)
    · obtain rfl : u = url := by
        simp only [List.mem_append, List.mem_cons, reduceCtorEq, false_or, not_or] at hu hlinks
        obtain hu | hu | hu | hu := hu
        · exact absurd hu hold
        · exact Tok.link.inj hu
        · exact absurd hu (hlinks u).1
        · exact absurd hu (hlinks u).2.2
      refine ⟨fun hgt => h.quiet '>' ?_ (by decide), hurl⟩
      simp [mem_chars.mpr hgt]
  · intro u hu
    simp only [List.mem_append, List.mem_cons, reduceCtorEq, false_or] at hu
    obtain hu | hu | hu | hu := hu
    · exact h.unlinks u (by simp [hu])
    · exact h.unlinks u (by simp [hu])
    · exact Tok.unlink.inj hu ▸ hurl
    · exact h.unlinks u (by simp [hu])
  · intro first last heq u hu
    obtain ⟨-, htok, -⟩ | ⟨z, rfl, -⟩ | ⟨z, -, htail⟩ := append_cons_cases heq
    · cases htok
    · exact hbrackets (by simp)
    · have hmem : .link u ∈ body ++ .unlink url :: behind := by simp [htail, hu]
      refine hlinks u ?_
      simp only [List.mem_append, List.mem_cons, reduceCtorEq, false_or] at hmem ⊢
      tauto

theorem LinkStep.of_cut (hlinking : Linking (htmlOf front) (htmlOf inner) u (htmlOf behind) s) :
    LinkStep (front ++ .char '[' ::
        (inner ++ .char ']' :: .char '(' :: (chars u ++ .char ')' :: behind)))
      (front ++ .link u :: (inner ++ .unlink u :: behind)) :=
  .mk hlinking.bracket hlinking.text hlinking.url

/-- The links are read as marks, or else one of them is broken. -/
theorem Readable.rewrites (h : Readable toks)
    (hrewrites : Rewrites (linkTurn htmlLink) (htmlOf toks) out) :
    (∃ toks', Linked toks toks' ∧ Readable toks' ∧ htmlOf toks' = out) ∨ Broken out := by
  generalize hs : htmlOf toks = s at hrewrites
  induction hrewrites generalizing toks with
  | stays hnone =>
    subst hs
    refine .inl ⟨toks, .stays fun a b u r hlinking => ?_, h, rfl⟩
    rw [hlinking.turn] at hnone
    cases hnone
  | moves hturn hrest ih =>
    subst hs
    obtain ⟨a, b, u, r, hlinking, rfl⟩ := linkTurn_eq_some.mp hturn
    obtain ⟨front, body, behind, rfl, rfl, rfl, rfl⟩ | hbroken := h.cut hlinking
    · have hstep := LinkStep.of_cut hlinking
      have hnext := Option.some.inj (hstep.turn.symm.trans hturn)
      obtain ⟨toks', hlinked, hreadable, hout⟩ | hbroken := ih (h.step hstep) hnext
      · exact .inl ⟨toks', .moves hstep hlinked, hreadable, hout⟩
      · exact .inr hbroken
    · exact .inr (hbroken.rewrites hrest)

end Readings

section Lexing

variable {toks toks' : List Tok} {n s out : Str} {c d : Char} {t t' : Tok}

/-- What stands between the angle brackets. -/
def tagText : Tok → Option Str
  | .char _ => none
  | .opening k => some k.tag
  | .closing k => some ('/' :: k.tag)
  | .link url => some ('a' :: (" href=\"".toList ++ (url ++ ['"'])))
  | .unlink _ => some ['/', 'a']

theorem html_of_tagText (h : tagText t = some n) : t.html = '<' :: (n ++ ['>']) := by
  cases t with
  | char c => cases h
  | opening k => cases h; rfl
  | closing k => cases h; rfl
  | unlink url => cases h; rfl
  | link url =>
    cases h
    have hopen : linkOpen = '<' :: 'a' :: " href=\"".toList := by decide
    have hclose : "\">".toList = ['"', '>'] := by decide
    refine (linkTag_eq url).trans ?_
    rw [hopen, hclose]
    simp only [List.cons_append, List.append_assoc, List.nil_append]

theorem htmlOf_tag (h : tagText t = some n) (toks : List Tok) :
    htmlOf (t :: toks) = '<' :: (n ++ '>' :: htmlOf toks) := by
  rw [htmlOf_cons, html_of_tagText h, List.cons_append, List.append_assoc]
  rfl

theorem char_or_tag (t : Tok) : (∃ c, t = .char c) ∨ ∃ n, tagText t = some n := by
  cases t with
  | char c => exact .inl ⟨c, rfl⟩
  | _ => exact .inr ⟨_, rfl⟩

theorem notMem_tagText (hd : d = '<' ∨ d = '>') (hurl : ∀ url, t = .link url → d ∉ url)
    (h : tagText t = some n) : d ∉ n := by
  cases t with
  | char c => cases h
  | opening k => cases h; obtain rfl | rfl := hd <;> cases k <;> decide
  | closing k => cases h; obtain rfl | rfl := hd <;> cases k <;> decide
  | unlink url => cases h; obtain rfl | rfl := hd <;> decide
  | link url =>
    cases h
    have hopen : d ∉ 'a' :: " href=\"".toList := by obtain rfl | rfl := hd <;> decide
    have hquote : d ∉ ['"'] := by obtain rfl | rfl := hd <;> decide
    rw [← List.cons_append, List.mem_append, List.mem_append, not_or, not_or]
    exact ⟨hopen, hurl url rfl, hquote⟩

/-- Tokens that are written alike. The end of a link does not show its address. -/
inductive Alike : Tok → Tok → Prop where
  | same (t : Tok) : Alike t t
  | unlink (u v : Str) : Alike (.unlink u) (.unlink v)

theorem tag_inj {k k' : Span} (h : k.tag = k'.tag) : k = k' := by
  revert h
  cases k <;> cases k' <;> decide

/-- No span is called like a link, nor like the end of something. -/
theorem tag_ne (k : Span) (s : Str) : k.tag ≠ 'a' :: s ∧ k.tag ≠ '/' :: s := by
  cases k <;> exact ⟨fun h => absurd (List.head_eq_of_cons_eq h) (by decide),
    fun h => absurd (List.head_eq_of_cons_eq h) (by decide)⟩

theorem alike_of_tagText (h : tagText t = some n) (h' : tagText t' = some n) : Alike t t' := by
  have hslash (s s' : Str) : '/' :: s ≠ 'a' :: s' := fun h =>
    absurd (List.head_eq_of_cons_eq h) (by decide)
  cases t with
  | char c => cases h
  | opening k =>
    cases h
    cases t' with
    | char c => cases h'
    | opening k' => exact tag_inj (Option.some.inj h') ▸ .same _
    | closing k' => exact absurd (Option.some.inj h').symm (tag_ne k _).2
    | link v => exact absurd (Option.some.inj h').symm (tag_ne k _).1
    | unlink v => exact absurd (Option.some.inj h').symm (tag_ne k _).2
  | closing k =>
    cases h
    cases t' with
    | char c => cases h'
    | opening k' => exact absurd (Option.some.inj h') (tag_ne k' _).2
    | closing k' => exact tag_inj (List.tail_eq_of_cons_eq (Option.some.inj h')) ▸ .same _
    | link v => exact absurd (Option.some.inj h').symm (hslash _ _)
    | unlink v =>
      exact absurd (List.tail_eq_of_cons_eq (Option.some.inj h')).symm (tag_ne k _).1
  | link u =>
    cases h
    cases t' with
    | char c => cases h'
    | opening k' => exact absurd (Option.some.inj h') (tag_ne k' _).1
    | closing k' => exact absurd (Option.some.inj h') (hslash _ _)
    | link v =>
      have hurl := List.append_cancel_left (List.tail_eq_of_cons_eq (Option.some.inj h'))
      exact List.append_cancel_right hurl ▸ .same _
    | unlink v => exact absurd (Option.some.inj h') (hslash _ _)
  | unlink u =>
    cases h
    cases t' with
    | char c => cases h'
    | opening k' => exact absurd (Option.some.inj h') (tag_ne k' _).2
    | closing k' =>
      exact absurd (List.tail_eq_of_cons_eq (Option.some.inj h')) (tag_ne k' _).1
    | link v => exact absurd (Option.some.inj h').symm (hslash _ _)
    | unlink v => exact .unlink u v

/-- Neither the characters nor the addresses end a tag or begin one. -/
def Legible (t : Tok) : Prop := (∀ c, t = .char c → c ≠ '<') ∧ ∀ u, t = .link u → '>' ∉ u

theorem legible_of_clean (h : Clean t) : Legible t := by
  constructor
  · rintro c rfl rfl
    exact h (by decide)
  · rintro u rfl hgt
    exact h '>' hgt (by decide)

theorem Readable.legible (h : Readable toks) : ∀ t ∈ toks, Legible t := by
  intro t ht
  constructor
  · rintro c rfl rfl
    exact h.quiet '<' ht (by decide)
  · rintro u rfl
    exact (h.links u ht).1

theorem alike_of_htmlOf (h : ∀ t ∈ toks, Legible t) (h' : ∀ t ∈ toks', Legible t)
    (heq : htmlOf toks = htmlOf toks') : List.Forall₂ Alike toks toks' := by
  induction toks generalizing toks' with
  | nil =>
    cases htmlOf_eq_nil heq.symm
    exact .nil
  | cons t toks ih =>
    cases toks' with
    | nil => cases htmlOf_eq_nil heq
    | cons t' toks' =>
      obtain ⟨ht, htoks⟩ := List.forall_mem_cons.mp h
      obtain ⟨ht', htoks'⟩ := List.forall_mem_cons.mp h'
      obtain ⟨c, rfl⟩ | ⟨n, hn⟩ := char_or_tag t <;> obtain ⟨c', rfl⟩ | ⟨n', hn'⟩ := char_or_tag t'
      · injection heq with hc hrest
        exact hc ▸ .cons (.same _) (ih htoks htoks' hrest)
      · rw [htmlOf_tag hn'] at heq
        injection heq with hc
        exact absurd hc (ht.1 c rfl)
      · rw [htmlOf_tag hn] at heq
        injection heq with hc
        exact absurd hc.symm (ht'.1 c' rfl)
      · rw [htmlOf_tag hn, htmlOf_tag hn'] at heq
        injection heq with _ hrest
        obtain ⟨rfl, hbehind⟩ := (append_cons_inj (notMem_tagText (.inr rfl) ht.2 hn)
          (notMem_tagText (.inr rfl) ht'.2 hn')).mp hrest
        exact .cons (alike_of_tagText hn hn') (ih htoks htoks' hbehind)

theorem link_mem_of_alike (h : List.Forall₂ Alike toks toks') {u : Str} (hu : .link u ∈ toks') :
    .link u ∈ toks := by
  induction h with
  | nil => exact hu
  | cons ht _ ih =>
    cases ht with
    | same t => exact (List.mem_cons.mp hu).elim (· ▸ .head _) fun hrest => .tail _ (ih hrest)
    | unlink v w => exact .tail _ (ih ((List.mem_cons.mp hu).resolve_left nofun))

theorem sourceOf_unlink (u : Str) (toks : List Tok) :
    sourceOf (.unlink u :: toks) = ']' :: '(' :: (u ++ ')' :: sourceOf toks) := by
  rw [sourceOf_cons, Tok.source, linkEnd_eq]
  simp only [List.cons_append, List.append_assoc, List.nil_append]

/-- The addresses at the ends of the links are in the source. -/
theorem eq_of_alike (h : List.Forall₂ Alike toks toks') (hurl : ∀ u, .unlink u ∈ toks → ')' ∉ u)
    (hurl' : ∀ u, .unlink u ∈ toks' → ')' ∉ u) (heq : sourceOf toks = sourceOf toks') :
    toks = toks' := by
  induction h with
  | nil => rfl
  | cons ht _ ih =>
    have hrest := ih (fun u hu => hurl u (.tail _ hu)) (fun u hu => hurl' u (.tail _ hu))
    cases ht with
    | same t =>
      rw [sourceOf_cons, sourceOf_cons] at heq
      rw [hrest (List.append_cancel_left heq)]
    | unlink u v =>
      rw [sourceOf_unlink, sourceOf_unlink] at heq
      injection heq with _ hends
      injection hends with _ hends
      obtain ⟨rfl, heq⟩ := (append_cons_inj (hurl u (.head _)) (hurl' v (.head _))).mp hends
      rw [hrest heq]

/-- A tag that begins inside of another one has no end in front of it. -/
theorem not_broken (h : ∀ t ∈ toks, Clean t) : ¬ Broken (htmlOf toks) := by
  rintro ⟨p, x, y, heq, -, hx⟩
  have hopen : '>' ∉ "a href=\"".toList := by decide
  have hbegin : htmlOf toks = p ++ '<' :: ("a href=\"".toList ++ (x ++ '<' :: y)) := heq
  obtain ⟨front, t, behind, q, w, rfl, ht, -, hrest⟩ := flatMap_eq_append_cons hbegin
  have hclean := h t (List.mem_append_right _ (.head _))
  obtain ⟨c, rfl⟩ | ⟨n, hn⟩ := char_or_tag t
  · have hlt : '<' ∈ (Tok.char c).html := ht ▸ List.mem_append_right _ (.head _)
    cases List.mem_singleton.mp hlt
    exact hclean (by decide)
  · have hname : '<' ∉ n := by
      refine notMem_tagText (.inl rfl) ?_ hn
      rintro url rfl hlt
      exact hclean '<' hlt (by decide)
    obtain rfl : w = n ++ ['>'] := by
      rw [html_of_tagText hn] at ht
      obtain ⟨-, -, hw⟩ | ⟨z, hz, -⟩ | ⟨z, -, hz⟩ := append_cons_cases (a := []) ht
      · exact hw.symm
      · cases q <;> cases hz
      · have hlt : '<' ∈ n ++ ['>'] := hz ▸ List.mem_append_right _ (List.mem_cons_self ..)
        exact absurd (List.mem_append.mp hlt) (not_or.mpr ⟨hname, by decide⟩)
    rw [← List.append_assoc, List.append_assoc n] at hrest
    obtain ⟨-, hsame, -⟩ | ⟨z, hz, -⟩ | ⟨z, hz, -⟩ := append_cons_cases hrest
    · exact absurd hsame (by decide)
    · have hgt : '>' ∈ "a href=\"".toList ++ x := hz ▸ List.mem_append_right _ (.head _)
      exact absurd (List.mem_append.mp hgt) (not_or.mpr ⟨hopen, hx⟩)
    · exact hname (hz ▸ List.mem_append_right _ (.head _))

end Lexing

section Results

variable {toks : List Tok} {text out : Str}

theorem count_sourceOf (h : Plain toks) : (sourceOf toks).count ';' = (htmlOf toks).count ';' := by
  induction toks with
  | nil => rfl
  | cons t toks ih =>
    rw [sourceOf_cons, htmlOf_cons, List.count_append, List.count_append,
      ih fun t ht => h t (.tail _ ht)]
    congr 1
    cases t with
    | char c => rfl
    | opening k => cases k <;> decide
    | closing k => cases k <;> decide
    | link url => cases h _ (.head _)
    | unlink url => cases h _ (.head _)

theorem mem_text (h : .char c ∈ marks text) : c ∈ text := by
  rw [← sourceOf_marks text]
  exact List.mem_flatMap.mpr ⟨_, h, List.mem_singleton_self _⟩

theorem readable_marks (h : ∀ c ∈ text, c ∉ specials) : Readable (marks text) := by
  have hplain := plain_marks text
  refine ⟨fun c hc => h c (mem_text hc), fun u hu => ?_, fun u hu => ?_, ?_⟩
  · cases hplain _ hu
  · cases hplain _ hu
  · intro front behind heq u hu
    cases hplain (.link u) (by rw [heq]; simp [hu])

/-- What is in the source of something that nests. -/
theorem clean_of_nested (h : Nested toks) (htext : ∀ c ∈ sourceOf toks, c ∉ specials)
    (hquote : ∀ t ∈ toks, noQuote t) : ∀ t ∈ toks, Clean t := by
  intro t ht
  cases t with
  | char c => exact htext c (List.mem_flatMap.mpr ⟨_, ht, List.mem_singleton_self _⟩)
  | link url =>
    intro c hc
    rw [List.mem_cons, not_or]
    refine ⟨fun hsame => hquote _ ht (hsame ▸ hc), htext c ?_⟩
    refine List.mem_flatMap.mpr ⟨_, h.unlink_mem_iff.mpr ht, ?_⟩
    rw [Tok.source, linkEnd_eq]
    simp [hc]
  | _ => trivial

theorem faithful_of_nests (h : Nests text)
    (hrewrites : Rewrites (linkTurn htmlLink) (htmlOf (marks text)) out) : Faithful text out := by
  obtain ⟨htext, toks, hlinked, hnested, hquote⟩ := h
  have hsource : sourceOf toks = text := hlinked.source.trans (sourceOf_marks text)
  refine ⟨toks, hnested, hsource, ?_⟩
  rw [escapedOf_eq (clean_of_nested hnested (hsource.symm ▸ htext) hquote)]
  exact hlinked.rewrites.unique hrewrites

theorem notMem_sourceOf (h : Nested toks) (hclean : ∀ t ∈ toks, Clean t) :
    ∀ c ∈ sourceOf toks, c ∉ specials := by
  intro c hc
  obtain ⟨t, ht, hc⟩ := List.mem_flatMap.mp hc
  have hmarker (k : Span) (hk : c ∈ k.marker) : c ∉ specials := by
    rintro hspecial
    simp only [specials, List.mem_cons, List.not_mem_nil, or_false] at hspecial
    obtain rfl | rfl | rfl := hspecial <;> revert hk <;> cases k <;> decide
  cases t with
  | char d => exact List.mem_singleton.mp hc ▸ hclean _ ht
  | opening k => exact hmarker k hc
  | closing k => exact hmarker k hc
  | link url => exact List.mem_singleton.mp hc ▸ (by decide)
  | unlink url =>
    rw [Tok.source, linkEnd_eq, List.mem_cons, List.mem_cons, List.mem_append,
      List.mem_singleton] at hc
    obtain rfl | rfl | hc | rfl := hc
    · decide
    · decide
    · exact fun hspecial => hclean _ (h.unlink_mem_iff.mp ht) c hc (.tail _ hspecial)
    · decide

theorem nests_of_faithful (h : Faithful text out)
    (hrewrites : Rewrites (linkTurn htmlLink) (htmlOf (marks text)) out) : Nests text := by
  have hcount : out.count ';' = text.count ';' := by
    rw [hrewrites.invariant (f := List.count ';') fun _ _ => count_linkTurn,
      ← count_sourceOf (plain_marks text), sourceOf_marks]
  obtain ⟨toks, hnested, hsource, rfl, hclean⟩ := h.clean hcount
  have htext : ∀ c ∈ text, c ∉ specials := hsource ▸ notMem_sourceOf hnested hclean
  refine ⟨htext, toks, ?_, hnested, fun t ht => (hclean t ht).noQuote⟩
  obtain ⟨toks', hlinked, hreadable, hout⟩ :=
    ((readable_marks htext).rewrites hrewrites).resolve_right (not_broken hclean)
  have halike := alike_of_htmlOf hreadable.legible (fun t ht => legible_of_clean (hclean t ht)) hout
  have hurl : ∀ u, .unlink u ∈ toks → ')' ∉ u := fun u hu =>
    (hreadable.links u (link_mem_of_alike halike (hnested.unlink_mem_iff.mp hu))).2
  have hsame : sourceOf toks' = sourceOf toks :=
    hlinked.source.trans ((sourceOf_marks text).trans hsource.symm)
  exact eq_of_alike halike hreadable.unlinks hurl hsame ▸ hlinked

/-- Telegram is sent well-formed HTML for the texts whose markers nest, and for no others. -/
theorem markdownToTelegramHtml_faithful_iff (text : Str) : ∃ out,
    markdownToTelegramHtml text = some out ∧ (Faithful text out ↔ Nests text) := by
  have hsize : (htmlOf (marks text)).count '[' ≤ (htmlOf (marks text)).length :=
    List.count_le_length
  obtain ⟨out, hout⟩ := exists_rewrite (fun s t => linkTurn_count) (Nat.lt_succ_of_le hsize)
  have hrewrites := rewrites_of_rewrite hout
  exact ⟨out, (markdownToTelegramHtml_eq text).trans hout,
    fun h => nests_of_faithful h hrewrites, fun h => faithful_of_nests h hrewrites⟩

theorem unpaired_star_not_faithful : ∃ out,
    markdownToTelegramHtml "2 * 3".toList = some out ∧ ¬ Faithful "2 * 3".toList out := by
  refine ⟨"2 <i> 3".toList, by decide, fun h => ?_⟩
  obtain ⟨toks, hnested, -, hout, hclean⟩ := h.clean (by decide)
  have heven := hnested.even_tags hclean
  rw [hout] at heven
  exact absurd heven (by decide)

end Results

end Clawreform.Channels.TelegramReading
