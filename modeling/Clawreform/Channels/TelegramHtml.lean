import Clawreform.Channels.TelegramMarks
import Clawreform.Lib.Regroup

namespace Clawreform.Channels.TelegramHtml

open Clawreform.Lib.Text Clawreform.Lib.Infix Clawreform.Lib.Rewriting Clawreform.Lib.Pieces
open Clawreform.Channels.Formatter Clawreform.Channels.TelegramMarks

section Documents

/-- What begins inside something ends inside of it. -/
inductive Nested : List Tok → Prop where
  | nil : Nested []
  | char (c : Char) {rest : List Tok} (h : Nested rest) : Nested (.char c :: rest)
  | span (k : Span) {body rest : List Tok} (hbody : Nested body) (hrest : Nested rest) :
    Nested (.opening k :: (body ++ .closing k :: rest))
  | link (url : Str) {body rest : List Tok} (hbody : Nested body) (hrest : Nested rest) :
    Nested (.link url :: (body ++ .unlink url :: rest))

def specials : Str := ['<', '>', '&']

def escape : Char → Str
  | '<' => "&lt;".toList
  | '>' => "&gt;".toList
  | '&' => "&amp;".toList
  | c => [c]

def escapeQuoted : Char → Str
  | '"' => "&quot;".toList
  | c => escape c

def escapedTok : Tok → Str
  | .char c => escape c
  | .link url => linkTag (url.flatMap escapeQuoted)
  | t => t.html

def escapedOf (toks : List Tok) : Str := toks.flatMap escapedTok

/-- Well-formed HTML for a text: some of its markers are read as tags, which nest, and the rest of
its characters are there to be seen. -/
def Faithful (text out : Str) : Prop := ∃ toks, Nested toks ∧ sourceOf toks = text ∧
  escapedOf toks = out

/-- The first bracket and what belongs to it become the marks of a link. -/
inductive LinkStep : List Tok → List Tok → Prop where
  | mk {front body behind : List Tok} {url : Str} (hfront : '[' ∉ htmlOf front)
      (hbody : ¬ "](".toList <:+: htmlOf body) (hurl : ')' ∉ url) :
    LinkStep
      (front ++ .char '[' :: (body ++ .char ']' :: .char '(' :: (chars url ++ .char ')' :: behind)))
      (front ++ .link url :: (body ++ .unlink url :: behind))

/-- Link after link, until nothing that is left could be taken for one. -/
inductive Linked : List Tok → List Tok → Prop where
  | stays {toks : List Tok} (h : ∀ a b u r, ¬ Linking a b u r (htmlOf toks)) : Linked toks toks
  | moves {toks next out : List Tok} (h : LinkStep toks next) (rest : Linked next out) :
    Linked toks out

def noQuote : Tok → Prop
  | .link url => '"' ∉ url
  | _ => True

/-- Nothing has to be escaped, and the marks of the text nest. -/
def Nests (text : Str) : Prop := (∀ c ∈ text, c ∉ specials) ∧
  ∃ toks, Linked (marks text) toks ∧ Nested toks ∧ ∀ t ∈ toks, noQuote t

end Documents

section Escapes

variable {toks : List Tok} {text out url : Str} {t : Tok}

def Clean : Tok → Prop
  | .char c => c ∉ specials
  | .link url => ∀ c ∈ url, c ∉ '"' :: specials
  | _ => True

theorem Clean.noQuote (h : Clean t) : noQuote t := by
  cases t with
  | link url => exact fun hquote => h '"' hquote (.head _)
  | _ => trivial

theorem escape_eq {c : Char} (h : c ∉ specials) : escape c = [c] := by
  unfold escape
  split
  · exact absurd h (by decide)
  · exact absurd h (by decide)
  · exact absurd h (by decide)
  · rfl

theorem escape_cases (c : Char) :
    c ∉ specials ∧ escape c = [c] ∨ [c].count ';' < (escape c).count ';' := by
  by_cases h : c ∈ specials
  · simp only [specials, List.mem_cons, List.not_mem_nil, or_false] at h
    obtain rfl | rfl | rfl := h <;> exact .inr (by decide)
  · exact .inl ⟨h, escape_eq h⟩

theorem escapeQuoted_of_ne {c : Char} (h : c ≠ '"') : escapeQuoted c = escape c := by
  unfold escapeQuoted
  split
  · exact absurd rfl h
  · rfl

theorem escapeQuoted_eq {c : Char} (h : c ∉ '"' :: specials) : escapeQuoted c = [c] := by
  rw [List.mem_cons, not_or] at h
  rw [escapeQuoted_of_ne h.1, escape_eq h.2]

theorem escapeQuoted_cases (c : Char) :
    c ∉ '"' :: specials ∧ escapeQuoted c = [c] ∨ [c].count ';' < (escapeQuoted c).count ';' := by
  by_cases hquote : c = '"'
  · subst hquote
    exact .inr (by decide)
  · rw [escapeQuoted_of_ne hquote, List.mem_cons, not_or]
    exact (escape_cases c).imp_left fun ⟨hc, heq⟩ => ⟨⟨hquote, hc⟩, heq⟩

theorem count_linkTag {d : Char} (h : d ∉ linkTag []) (url : Str) :
    (linkTag url).count d = url.count d := by
  have hlink : linkTag url = '<' :: "a href=\"".toList ++ (url ++ "\">".toList) :=
    List.append_assoc ..
  have hnil : d ∉ '<' :: "a href=\"".toList ++ "\">".toList := h
  rw [List.mem_append, not_or] at hnil
  rw [hlink, List.count_append, List.count_append, List.count_eq_zero.mpr hnil.1,
    List.count_eq_zero.mpr hnil.2, Nat.zero_add, Nat.add_zero]

theorem semicolon_notMem : ';' ∉ linkTag [] := by decide

theorem escapedTok_eq (h : Clean t) : escapedTok t = t.html := by
  cases t with
  | char c => exact escape_eq h
  | link url =>
    have hself : url.flatMap escapeQuoted = url.flatMap ([·]) :=
      List.flatMap_congr fun c hc => escapeQuoted_eq (h c hc)
    exact congrArg linkTag (hself.trans (List.flatMap_singleton' url))
  | _ => rfl

theorem escapedOf_eq (h : ∀ t ∈ toks, Clean t) : escapedOf toks = htmlOf toks :=
  List.flatMap_congr fun t ht => escapedTok_eq (h t ht)

theorem escapedTok_cases (t : Tok) :
    Clean t ∧ escapedTok t = t.html ∨ t.html.count ';' < (escapedTok t).count ';' := by
  cases t with
  | char c => exact escape_cases c
  | link url =>
    have hself : url.flatMap ([·]) = url := List.flatMap_singleton' url
    obtain ⟨hclean, -⟩ | hlt := flatMap_count escapeQuoted_cases url
    · exact .inl ⟨hclean, escapedTok_eq hclean⟩
    · rw [hself] at hlt
      refine .inr ?_
      show (linkTag url).count ';' < (linkTag _).count ';'
      rwa [count_linkTag semicolon_notMem, count_linkTag semicolon_notMem]
  | _ => exact .inl ⟨trivial, rfl⟩

theorem escapedOf_cases (toks : List Tok) : (∀ t ∈ toks, Clean t) ∧ escapedOf toks = htmlOf toks ∨
    (htmlOf toks).count ';' < (escapedOf toks).count ';' := flatMap_count escapedTok_cases toks

end Escapes

section Nesting

variable {toks next out : List Tok} {text url html : Str}

theorem linkEnd_eq (url : Str) : linkEnd url = ']' :: '(' :: (url ++ [')']) := by
  have hmiddle : "](".toList = [']', '('] := by decide
  rw [linkEnd, hmiddle]
  rfl

theorem htmlLink_eq (linkText url : Str) :
    htmlLink linkText url = linkTag url ++ (linkText ++ ['<', '/', 'a', '>']) := by
  have hopen : "<a href=\"".toList = '<' :: "a href=\"".toList := by decide
  have hclose : "</a>".toList = ['<', '/', 'a', '>'] := by decide
  have hlink : htmlLink linkText url =
    "<a href=\"".toList ++ url ++ "\">".toList ++ linkText ++ "</a>".toList := rfl
  rw [hlink, hopen, hclose, List.append_assoc]
  rfl

theorem Nested.unlink_mem_iff (h : Nested toks) : .unlink url ∈ toks ↔ .link url ∈ toks := by
  induction h with
  | nil => simp
  | char c _ ih => simpa using ih
  | span k _ _ ihbody ihrest => simp [ihbody, ihrest]
  | link u _ _ ihbody ihrest => simp [ihbody, ihrest, or_left_comm]

/-- A mark is written without the sign entities end with. -/
theorem Nested.count_source (h : Nested toks) :
    (sourceOf toks).count ';' = (htmlOf toks).count ';' := by
  induction h with
  | nil => rfl
  | char c _ ih =>
    rw [sourceOf_cons, htmlOf_cons, List.count_append, List.count_append, ih]
    rfl
  | span k _ _ ihbody ihrest =>
    have hsource : k.marker.count ';' = 0 := by cases k <;> decide
    have hopening : (Tok.opening k).html.count ';' = 0 := by cases k <;> decide
    have hclosing : (Tok.closing k).html.count ';' = 0 := by cases k <;> decide
    simp only [sourceOf_cons, sourceOf_append, htmlOf_cons, htmlOf_append, List.count_append,
      ihbody, ihrest, hopening, hclosing, Tok.source, hsource]
  | link url _ _ ihbody ihrest =>
    have hend : (linkEnd url).count ';' = url.count ';' := by
      rw [linkEnd, List.count_append, List.count_append]
      have hmiddle : "](".toList.count ';' = 0 := by decide
      have hparen : [')'].count ';' = 0 := by decide
      rw [hmiddle, hparen, Nat.zero_add, Nat.add_zero]
    have hbracket : ['['].count ';' = 0 := by decide
    have hclosing : ['<', '/', 'a', '>'].count ';' = 0 := by decide
    simp only [sourceOf_cons, sourceOf_append, htmlOf_cons, htmlOf_append, List.count_append,
      ihbody, ihrest, hclosing, Tok.source, hend, hbracket, Tok.html,
      count_linkTag semicolon_notMem]
    omega

/-- A text that is written as it is seen has nothing to escape. -/
theorem Faithful.clean (h : Faithful text html) (hcount : html.count ';' = text.count ';') :
    ∃ toks, Nested toks ∧ sourceOf toks = text ∧ htmlOf toks = html ∧ ∀ t ∈ toks, Clean t := by
  obtain ⟨toks, hnested, rfl, rfl⟩ := h
  rw [hnested.count_source] at hcount
  obtain ⟨hclean, heq⟩ | hlt := escapedOf_cases toks
  · exact ⟨toks, hnested, rfl, heq.symm, hclean⟩
  · exact absurd hcount hlt.ne'

/-- Tags come in pairs. -/
theorem Nested.even_tags (h : Nested toks) (hclean : ∀ t ∈ toks, Clean t) :
    Even ((htmlOf toks).count '<') := by
  induction h with
  | nil => exact Even.zero
  | char c _ ih =>
    have hc : c ≠ '<' := by
      rintro rfl
      exact hclean _ (.head _) (by decide)
    rw [htmlOf_cons, Tok.html, List.singleton_append, List.count_cons_of_ne hc]
    exact ih fun t ht => hclean t (.tail _ ht)
  | span k _ _ ihbody ihrest =>
    have hopening : (Tok.opening k).html.count '<' = 1 := by cases k <;> decide
    have hclosing : (Tok.closing k).html.count '<' = 1 := by cases k <;> decide
    have hbody := ihbody fun t ht => hclean t (by simp [ht])
    have hrest := ihrest fun t ht => hclean t (by simp [ht])
    simp only [htmlOf_cons, htmlOf_append, List.count_append, hopening, hclosing]
    grind
  | link url _ _ ihbody ihrest =>
    have hurl : url.count '<' = 0 :=
      List.count_eq_zero.mpr fun hlt => hclean _ (.head _) '<' hlt (by decide)
    have hopening : (Tok.link url).html.count '<' = 1 := by
      have hopen : ('<' :: "a href=\"".toList).count '<' = 1 := by decide
      have hclose : "\">".toList.count '<' = 0 := by decide
      rw [Tok.html, linkTag, List.count_append, List.count_append, hopen, hurl, hclose]
    have hclosing : (Tok.unlink url).html.count '<' = 1 := by
      have hend : ['<', '/', 'a', '>'].count '<' = 1 := by decide
      exact hend
    have hbody := ihbody fun t ht => hclean t (by simp [ht])
    have hrest := ihrest fun t ht => hclean t (by simp [ht])
    simp only [htmlOf_cons, htmlOf_append, List.count_append, hopening, hclosing]
    grind

theorem LinkStep.source (h : LinkStep toks next) : sourceOf next = sourceOf toks := by
  obtain @⟨front, body, behind, url, -, -, -⟩ := h
  simp only [sourceOf_append, sourceOf_cons, sourceOf_chars, Tok.source, linkEnd_eq,
    List.append_assoc, List.cons_append, List.nil_append]

theorem LinkStep.turn (h : LinkStep toks next) :
    linkTurn htmlLink (htmlOf toks) = some (htmlOf next) := by
  obtain @⟨front, body, behind, url, hfront, hbody, hurl⟩ := h
  have hlinking : Linking (htmlOf front) (htmlOf body) url (htmlOf behind) (htmlOf (front ++
      .char '[' :: (body ++ .char ']' :: .char '(' :: (chars url ++ .char ')' :: behind)))) := by
    refine ⟨?_, hfront, hbody, hurl⟩
    simp [Tok.html]
  rw [hlinking.turn, htmlOf_append, htmlOf_cons, htmlOf_append, htmlOf_cons]
  rw [htmlLink_eq]
  simp only [List.append_assoc]
  rfl

theorem Linked.source (h : Linked toks out) : sourceOf out = sourceOf toks := by
  induction h with
  | stays _ => rfl
  | moves hstep _ ih => exact ih.trans hstep.source

theorem Linked.rewrites (h : Linked toks out) :
    Rewrites (linkTurn htmlLink) (htmlOf toks) (htmlOf out) := by
  induction h with
  | stays hnone =>
    refine .stays (Option.eq_none_iff_forall_ne_some.mpr fun t ht => ?_)
    obtain ⟨a, b, u, r, hlinking, -⟩ := linkTurn_eq_some.mp ht
    exact hnone a b u r hlinking
  | moves hstep _ ih => exact .moves hstep.turn ih

theorem count_linkTurn {s t : Str} (h : linkTurn htmlLink s = some t) :
    t.count ';' = s.count ';' := by
  obtain ⟨a, b, u, r, hlinking, rfl⟩ := linkTurn_eq_some.mp h
  have hclose : ['<', '/', 'a', '>'].count ';' = 0 := by decide
  have hmiddle : "](".toList.count ';' = 0 := by decide
  have hbracket (s : Str) : ('[' :: s).count ';' = s.count ';' := List.count_cons_of_ne (by decide)
  have hparen (s : Str) : (')' :: s).count ';' = s.count ';' := List.count_cons_of_ne (by decide)
  rw [hlinking.eq, htmlLink_eq]
  simp only [List.count_append, hbracket, hparen, hclose, hmiddle, count_linkTag semicolon_notMem]
  omega

/-- A link takes a bracket away. -/
theorem linkTurn_count {s t : Str} (h : linkTurn htmlLink s = some t) :
    t.count '[' < s.count '[' := by
  obtain ⟨a, b, u, r, hlinking, rfl⟩ := linkTurn_eq_some.mp h
  have hclose : ['<', '/', 'a', '>'].count '[' = 0 := by decide
  rw [hlinking.eq, htmlLink_eq]
  simp only [List.count_append, List.count_cons_self, hclose,
    count_linkTag (show '[' ∉ linkTag [] by decide)]
  have hparen : r.count '[' ≤ (')' :: r).count '[' := List.count_le_count_cons
  omega

end Nesting

end Clawreform.Channels.TelegramHtml
