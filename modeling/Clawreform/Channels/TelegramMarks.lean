import Clawreform.Channels.Formatter

namespace Clawreform.Channels.TelegramMarks

open Clawreform.Lib.Text Clawreform.Lib.Find Clawreform.Lib.Infix Clawreform.Lib.Rewriting
open Clawreform.Channels.Formatter

section Tokens

inductive Span where
  | bold
  | italic
  | code
  deriving DecidableEq

def Span.marker : Span → Str
  | bold => ['*', '*']
  | italic => ['*']
  | code => ['\u0060']

def Span.tag : Span → Str
  | bold => ['b']
  | italic => ['i']
  | code => ['c', 'o', 'd', 'e']

/-- What a text is read as: characters, and the markers that begin or end something. -/
inductive Tok where
  | char (c : Char)
  | opening (k : Span)
  | closing (k : Span)
  | link (url : Str)
  | unlink (url : Str)
  deriving DecidableEq

def linkTag (url : Str) : Str := '<' :: "a href=\"".toList ++ url ++ "\">".toList

def linkEnd (url : Str) : Str := "](".toList ++ url ++ [')']

def Tok.html : Tok → Str
  | char c => [c]
  | opening k => '<' :: k.tag ++ ['>']
  | closing k => '<' :: '/' :: k.tag ++ ['>']
  | link url => linkTag url
  | unlink _ => ['<', '/', 'a', '>']

/-- How a token is written in Markdown. -/
def Tok.source : Tok → Str
  | char c => [c]
  | opening k => k.marker
  | closing k => k.marker
  | link _ => ['[']
  | unlink url => linkEnd url

def htmlOf (toks : List Tok) : Str := toks.flatMap Tok.html

def sourceOf (toks : List Tok) : Str := toks.flatMap Tok.source

def chars (s : Str) : List Tok := s.map .char

/-- Two stars begin something bold when two more follow. -/
def boldMarks : Bool → Str → List Tok
  | inside, '*' :: '*' :: s =>
    if inside then .closing .bold :: boldMarks false s
    else if ['*', '*'] <:+: s then .opening .bold :: boldMarks true s
    else chars ('*' :: '*' :: s)
  | inside, c :: s => .char c :: boldMarks inside s
  | _, [] => []

/-- A star without a star next to it begins or ends something italic. -/
@[grind =] def italicMarks : Bool → Bool → List Tok → List Tok
  | prev, inItalic, .char '*' :: toks =>
    if !prev && toks.head? != some (.char '*') then
      (if inItalic then .closing .italic else .opening .italic) ::
        italicMarks true (!inItalic) toks
    else .char '*' :: italicMarks true inItalic toks
  | _, inItalic, t :: toks => t :: italicMarks false inItalic toks
  | _, _, [] => []

/-- A backtick begins code when another one follows. -/
@[grind =] def codeMarks : Bool → List Tok → List Tok
  | inside, .char '\u0060' :: toks =>
    if inside then .closing .code :: codeMarks false toks
    else if .char '\u0060' ∈ toks then .opening .code :: codeMarks true toks
    else .char '\u0060' :: toks
  | inside, t :: toks => t :: codeMarks inside toks
  | _, [] => []

def marks (text : Str) : List Tok :=
  codeMarks false (italicMarks false false (boldMarks false text))

example : marks "**a *b** c*".toList = [.opening .bold, .char 'a', .char ' ', .opening .italic,
    .char 'b', .closing .bold, .char ' ', .char 'c', .closing .italic] := by
  decide

end Tokens

section Loops

variable {m o c s t a b r pre x y : Str} {d : Char}

/-- Nothing of a marker is in the text, nor does one begin in it. -/
def Closed (m pre : Str) : Prop := ∀ s, find m (pre ++ s) = (find m s).map (· + pre.length)

theorem closed_nil (m : Str) : Closed m [] := by
  intro s
  cases h : find m s <;> simp [h]

theorem Closed.append (hx : Closed m x) (hy : Closed m y) : Closed m (x ++ y) := by
  intro s
  rw [List.append_assoc, hx, hy, Option.map_map, List.length_append]
  congr 1
  funext n
  exact (Nat.add_assoc _ _ _).trans (congrArg (n + ·) (Nat.add_comm _ _))

/-- A character that is not in the marker closes a text without one. -/
theorem closed_concat (hm : m ≠ []) (hd : d ∉ m) (hx : ¬ m <:+: x) : Closed m (x ++ [d]) := by
  intro s
  rw [List.append_assoc, List.singleton_append, List.length_append, List.length_singleton]
  cases hfind : find m s with
  | none =>
    refine find_eq_none_iff.mpr ?_
    rw [infix_cons_iff hm hd, not_or]
    exact ⟨hx, find_eq_none_iff.mp hfind⟩
  | some n =>
    obtain ⟨p, q, rfl, rfl, hp⟩ := exists_of_find hm hfind
    have hbegins : ¬ m <:+: (x ++ d :: p) ++ m.dropLast := by
      rw [List.append_assoc, List.cons_append, infix_cons_iff hm hd, not_or]
      exact ⟨hx, hp⟩
    have hfound := (find_append_iff (b := q) hm).mpr hbegins
    have heq : x ++ d :: p ++ m ++ q = x ++ d :: (p ++ m ++ q) := by simp
    rw [heq] at hfound
    rw [hfound, Option.map_some, List.length_append, List.length_cons]
    congr 1
    omega

theorem pairTurn_append (h : Closed m pre) (s : Str) :
    pairTurn m o c (pre ++ s) = (pairTurn m o c s).map (pre ++ ·) := by
  rw [pairTurn, pairTurn, h s]
  cases find m s with
  | none => rfl
  | some n =>
    have htake : (pre ++ s).take (n + pre.length) = pre ++ s.take n := by
      rw [Nat.add_comm, List.take_length_add_append]
    have hdrop : (pre ++ s).drop (n + pre.length + m.length) = s.drop (n + m.length) := by
      rw [Nat.add_right_comm, Nat.add_comm, List.drop_length_add_append]
    rw [Option.map_some, Option.bind_some, Option.bind_some]
    dsimp only
    rw [htake, hdrop, Option.map_map]
    congr 1
    funext k
    simp

theorem marker_cases (hm : m ≠ []) (s : Str) : (¬ m <:+: s) ∨
    (∃ a r, s = a ++ m ++ r ∧ ¬ m <:+: a ++ m.dropLast ∧ ¬ m <:+: r) ∨
      ∃ a b r, Marked m a b r s := by
  cases hfirst : find m s with
  | none => exact .inl (find_eq_none_iff.mp hfirst)
  | some n =>
    obtain ⟨a, rest, rfl, -, ha⟩ := exists_of_find hm hfirst
    cases hsecond : find m rest with
    | none => exact .inr (.inl ⟨a, rest, rfl, ha, find_eq_none_iff.mp hsecond⟩)
    | some n =>
      obtain ⟨b, r, rfl, -, hb⟩ := exists_of_find hm hsecond
      exact .inr (.inr ⟨a, b, r, rfl, ha, hb⟩)

theorem pairTurn_none (h : ¬ m <:+: s) : pairTurn m o c s = none := by
  rw [pairTurn, find_eq_none_iff.mpr h]
  rfl

theorem pairTurn_single (hm : m ≠ []) (ha : ¬ m <:+: a ++ m.dropLast) (hr : ¬ m <:+: r) :
    pairTurn m o c (a ++ m ++ r) = none := by
  rw [pairTurn, (find_append_iff hm).mpr ha, Option.bind_some]
  dsimp only
  rw [← List.length_append, List.drop_left, find_eq_none_iff.mpr hr]
  rfl

theorem html_opening (k : Span) : (Tok.opening k).html = '<' :: (k.tag ++ ['>']) := rfl

theorem html_closing (k : Span) : (Tok.closing k).html = '<' :: '/' :: (k.tag ++ ['>']) := rfl

theorem Span.marker_ne_nil (k : Span) : k.marker ≠ [] := by
  cases k <;> decide

/-- What was put into a text is closed. -/
theorem closed_pair (k : Span) (ha : ¬ k.marker <:+: a) (hb : ¬ k.marker <:+: b) :
    Closed k.marker (a ++ (Tok.opening k).html ++ b ++ (Tok.closing k).html) := by
  have hlt : '<' ∉ k.marker := by cases k <;> decide
  have hgt : '>' ∉ k.marker := by cases k <;> decide
  have hclose : ¬ k.marker <:+: '/' :: k.tag := by
    cases k with
    | bold => exact not_infix_of_mem (show '*' ∈ ['*', '*'] by decide) (by decide)
    | italic => exact not_infix_of_mem (show '*' ∈ ['*'] by decide) (by decide)
    | code => exact not_infix_of_mem (show '\u0060' ∈ ['\u0060'] by decide) (by decide)
  have htag : ¬ k.marker <:+: k.tag := fun h => hclose (h.trans (List.suffix_cons _ _).isInfix)
  have hsplit : a ++ (Tok.opening k).html ++ b ++ (Tok.closing k).html =
      (a ++ '<' :: (k.tag ++ '>' :: (b ++ '<' :: '/' :: k.tag))) ++ ['>'] := by
    rw [html_opening, html_closing]
    simp only [List.append_assoc, List.cons_append, List.nil_append]
  rw [hsplit]
  refine closed_concat k.marker_ne_nil hgt ?_
  rw [infix_cons_iff k.marker_ne_nil hlt, infix_cons_iff k.marker_ne_nil hgt,
    infix_cons_iff k.marker_ne_nil hlt]
  exact not_or.mpr ⟨ha, not_or.mpr ⟨htag, not_or.mpr ⟨hb, hclose⟩⟩⟩

variable {ι : Type} {k : Span}

/-- What the turns make of texts that are read pair by pair. -/
theorem rewrites_pairs (str out : ι → Str) (size : ι → Nat)
    (h : ∀ i, (pairTurn k.marker (Tok.opening k).html (Tok.closing k).html (str i) = none ∧
      out i = str i) ∨ ∃ a b j, Marked k.marker a b (str j) (str i) ∧
      size j < size i ∧ out i = a ++ (Tok.opening k).html ++ b ++ (Tok.closing k).html ++ out j)
    (hpre : Closed k.marker pre) (i : ι) :
    Rewrites (pairTurn k.marker (Tok.opening k).html (Tok.closing k).html) (pre ++ str i)
      (pre ++ out i) := by
  induction hsize : size i using Nat.strong_induction_on generalizing i pre with
  | _ n ih =>
    subst hsize
    obtain ⟨hnone, hout⟩ | ⟨a, b, j, hmarked, hlt, hout⟩ := h i
    · rw [hout]
      exact .stays (by rw [pairTurn_append hpre, hnone]; rfl)
    · have hturn : pairTurn k.marker (Tok.opening k).html (Tok.closing k).html (str i) = some _ :=
        (pairTurn_eq_some k.marker_ne_nil).mpr ⟨a, b, str j, hmarked, rfl⟩
      have hclosed := hpre.append (closed_pair k
        (fun hinf => hmarked.first (hinf.trans (List.prefix_append _ _).isInfix))
        (fun hinf => hmarked.second (hinf.trans (List.prefix_append _ _).isInfix)))
      have hrest := ih (size j) hlt hclosed j rfl
      rw [List.append_assoc pre, List.append_assoc pre, ← hout] at hrest
      exact .moves (by rw [pairTurn_append hpre, hturn]; rfl) hrest

end Loops

section Tokens

variable {toks : List Tok} {s a r : Str} {t : Tok} {c : Char}

@[simp] theorem htmlOf_cons (t : Tok) (toks : List Tok) :
    htmlOf (t :: toks) = t.html ++ htmlOf toks := List.flatMap_cons

@[simp] theorem htmlOf_append (l l' : List Tok) : htmlOf (l ++ l') = htmlOf l ++ htmlOf l' :=
  List.flatMap_append

@[simp] theorem sourceOf_cons (t : Tok) (toks : List Tok) :
    sourceOf (t :: toks) = t.source ++ sourceOf toks := List.flatMap_cons

@[simp] theorem sourceOf_append (l l' : List Tok) :
    sourceOf (l ++ l') = sourceOf l ++ sourceOf l' := List.flatMap_append

@[simp] theorem htmlOf_chars (s : Str) : htmlOf (chars s) = s := by
  induction s with
  | nil => rfl
  | cons c s ih => exact congrArg (c :: ·) ih

@[simp] theorem sourceOf_chars (s : Str) : sourceOf (chars s) = s := by
  induction s with
  | nil => rfl
  | cons c s ih => exact congrArg (c :: ·) ih

end Tokens

section Bold

variable {s a b r : Str} {c : Char} {inside : Bool}

theorem boldMarks_cons (h : ¬ ['*', '*'] <+: c :: s) :
    boldMarks inside (c :: s) = .char c :: boldMarks inside s := by
  rw [boldMarks]
  intro s' hc hs
  subst hc hs
  exact h ⟨s', rfl⟩

/-- What stands in front of a marker. -/
theorem boldMarks_append (h : ¬ ['*', '*'] <:+: a ++ ['*']) (r : Str) :
    boldMarks inside (a ++ r) = chars a ++ boldMarks inside r := by
  induction a with
  | nil => rfl
  | cons c a ih =>
    have hrest : ¬ ['*', '*'] <:+: a ++ ['*'] := fun hinf =>
      h (hinf.trans (List.suffix_cons c _).isInfix)
    have hstart : ¬ ['*', '*'] <+: c :: (a ++ r) := by
      rintro ⟨rest, hpre⟩
      injection hpre with hc hpre
      cases a with
      | nil => exact h (hc ▸ List.infix_refl _)
      | cons d a =>
        injection hpre with hd
        exact h (hc ▸ hd ▸ (List.prefix_append ['*', '*'] _).isInfix)
    rw [List.cons_append, boldMarks_cons hstart, ih hrest]
    rfl

theorem boldMarks_marked (h : Marked ['*', '*'] a b r s) : boldMarks false s =
    chars a ++ .opening .bold :: (chars b ++ .closing .bold :: boldMarks false r) := by
  have hmore : ['*', '*'] <:+: b ++ ['*', '*'] ++ r := ⟨b, r, rfl⟩
  have hopen : boldMarks false ('*' :: '*' :: (b ++ ['*', '*'] ++ r)) =
      .opening .bold :: boldMarks true (b ++ ['*', '*'] ++ r) := by
    rw [boldMarks, if_neg Bool.false_ne_true, if_pos hmore]
  have hclose : boldMarks true ('*' :: '*' :: r) = .closing .bold :: boldMarks false r := by
    rw [boldMarks, if_pos rfl]
  rw [h.eq, List.append_assoc, boldMarks_append h.first]
  rw [List.append_assoc, boldMarks_append h.second] at hopen
  rw [show boldMarks true (['*', '*'] ++ r) = _ from hclose] at hopen
  rw [List.append_assoc]
  exact congrArg (chars a ++ ·) hopen

theorem boldMarks_plain (h : ¬ ['*', '*'] <:+: s) : boldMarks inside s = chars s := by
  induction s with
  | nil => rfl
  | cons c s ih =>
    rw [List.infix_cons_iff, not_or] at h
    rw [boldMarks_cons h.1, ih h.2]
    rfl

theorem boldMarks_single (ha : ¬ ['*', '*'] <:+: a ++ ['*']) (hr : ¬ ['*', '*'] <:+: r) :
    boldMarks false (a ++ ['*', '*'] ++ r) = chars (a ++ ['*', '*'] ++ r) := by
  have hleft : boldMarks false ('*' :: '*' :: r) = chars ('*' :: '*' :: r) := by
    rw [boldMarks, if_neg Bool.false_ne_true, if_neg hr]
  rw [List.append_assoc, boldMarks_append ha]
  exact (congrArg (chars a ++ ·) hleft).trans List.map_append.symm

theorem sourceOf_boldMarks (inside : Bool) (s : Str) : sourceOf (boldMarks inside s) = s := by
  induction inside, s using boldMarks.induct with
  | case1 s ih =>
    rw [boldMarks, if_pos rfl, sourceOf_cons, ih]
    rfl
  | case2 inside s hinside hmore ih =>
    rw [boldMarks, if_neg hinside, if_pos hmore, sourceOf_cons, ih]
    rfl
  | case3 inside s hinside hmore => rw [boldMarks, if_neg hinside, if_neg hmore, sourceOf_chars]
  | case4 inside c s hnot ih =>
    rw [boldMarks, sourceOf_cons, ih]
    · rfl
    · exact hnot
  | case5 inside => rfl

theorem rewrites_bold (s : Str) : Rewrites (pairTurn "**".toList "<b>".toList "</b>".toList) s
    (htmlOf (boldMarks false s)) := by
  refine rewrites_pairs (k := .bold) id (fun s => htmlOf (boldMarks false s)) List.length
    (fun s => ?_) (closed_nil _) s
  obtain hnone | ⟨a, r, rfl, ha, hr⟩ | ⟨a, b, r, hmarked⟩ :=
    marker_cases Span.bold.marker_ne_nil s
  · refine .inl ⟨pairTurn_none hnone, ?_⟩
    rw [boldMarks_plain hnone, htmlOf_chars]
    rfl
  · refine .inl ⟨pairTurn_single Span.bold.marker_ne_nil ha hr, ?_⟩
    exact (congrArg htmlOf (boldMarks_single ha hr)).trans (htmlOf_chars _)
  · refine .inr ⟨a, b, r, hmarked, ?_, ?_⟩
    · rw [hmarked.eq]
      have hpos : 0 < Span.bold.marker.length := by decide
      simp only [List.length_append]
      omega
    · rw [boldMarks_marked hmarked]
      simp only [htmlOf_append, htmlOf_cons, htmlOf_chars, List.append_assoc]

end Bold

section Italic

variable {prev inItalic : Bool} {x s : Str} {toks : List Tok} {c : Char}

def isPlain : Tok → Bool
  | .link _ => false
  | .unlink _ => false
  | _ => true

def Plain (toks : List Tok) : Prop := ∀ t ∈ toks, isPlain t = true

theorem head_htmlOf (toks : List Tok) :
    (htmlOf toks).head? = some '*' ↔ toks.head? = some (.char '*') := by
  cases toks with
  | nil => simp [htmlOf]
  | cons t toks =>
    cases t with
    | char c => simp [Tok.html]
    | opening k => simp [Tok.html]
    | closing k => simp [Tok.html]
    | link url =>
      have hhead : (htmlOf (.link url :: toks)).head? = some '<' := rfl
      rw [hhead]
      exact iff_of_false (by decide) nofun
    | unlink url => simp [Tok.html]

theorem single_htmlOf (prev : Bool) (toks : List Tok) :
    single prev '*' (htmlOf toks) = (!prev && toks.head? != some (.char '*')) := by
  have hhead : ((htmlOf toks).head? != some '*') = (toks.head? != some (.char '*')) := by
    rw [Bool.eq_iff_iff, bne_iff_ne, bne_iff_ne]
    exact not_congr (head_htmlOf toks)
  rw [single, hhead]
  rfl

theorem italicFrom_cons (h : c ≠ '*') :
    italicFrom prev inItalic (c :: s) = c :: italicFrom false inItalic s := by
  have hstar : (c == '*') = false := beq_false_of_ne h
  have hsingle : single prev c s = false := by
    rw [single, hstar]
    rfl
  rw [italicFrom, hsingle, hstar]
  rfl

theorem italicFrom_notMem (h : '*' ∉ x) (hne : x ≠ []) :
    italicFrom prev inItalic (x ++ s) = x ++ italicFrom false inItalic s := by
  induction x generalizing prev with
  | nil => exact absurd rfl hne
  | cons c x ih =>
    rw [List.mem_cons, not_or] at h
    rw [List.cons_append, italicFrom_cons (Ne.symm h.1)]
    cases x with
    | nil => rfl
    | cons d x =>
      rw [ih h.2 (List.cons_ne_nil d x)]
      rfl

theorem italicFrom_htmlOf (prev inItalic : Bool) (toks : List Tok) (h : Plain toks) :
    italicFrom prev inItalic (htmlOf toks) = htmlOf (italicMarks prev inItalic toks) := by
  induction prev, inItalic, toks using italicMarks.induct with
  | case1 prev inItalic toks hsingle ih =>
    rw [← single_htmlOf] at hsingle
    rw [italicMarks, ← single_htmlOf, if_pos hsingle, htmlOf_cons, htmlOf_cons,
      ← ih fun t ht => h t (.tail _ ht)]
    show italicFrom prev inItalic ('*' :: htmlOf toks) = _
    rw [italicFrom, if_pos hsingle]
    cases inItalic <;> rfl
  | case2 prev inItalic toks hsingle ih =>
    rw [← single_htmlOf] at hsingle
    rw [italicMarks, ← single_htmlOf, if_neg hsingle, htmlOf_cons, htmlOf_cons,
      ← ih fun t ht => h t (.tail _ ht)]
    show italicFrom prev inItalic ('*' :: htmlOf toks) = _
    rw [italicFrom, if_neg hsingle]
    rfl
  | case3 prev inItalic t toks hnot ih =>
    have hrest := ih (fun t ht => h t (.tail _ ht))
    rw [italicMarks, htmlOf_cons, htmlOf_cons, ← hrest]
    · cases t with
      | char c => exact italicFrom_cons (fun hc => hnot (hc ▸ rfl))
      | opening k => exact italicFrom_notMem (by cases k <;> decide) (List.cons_ne_nil _ _)
      | closing k => exact italicFrom_notMem (by cases k <;> decide) (List.cons_ne_nil _ _)
      | link url => cases h _ (.head _)
      | unlink url => cases h _ (.head _)
    · exact hnot
  | case4 prev inItalic => rfl

theorem sourceOf_italicMarks (prev inItalic : Bool) (toks : List Tok) :
    sourceOf (italicMarks prev inItalic toks) = sourceOf toks := by
  induction prev, inItalic, toks using italicMarks.induct with
  | case1 prev inItalic toks hsingle ih =>
    rw [italicMarks, if_pos hsingle, sourceOf_cons, sourceOf_cons, ih]
    cases inItalic <;> rfl
  | case2 prev inItalic toks hsingle ih =>
    rw [italicMarks, if_neg hsingle, sourceOf_cons, sourceOf_cons, ih]
  | case3 prev inItalic t toks hnot ih =>
    rw [italicMarks, sourceOf_cons, sourceOf_cons, ih]
    exact hnot
  | case4 prev inItalic => rfl

end Italic

section Code

variable {toks a b r : List Tok} {t : Tok} {inside : Bool}

theorem plain_boldMarks (inside : Bool) (s : Str) : Plain (boldMarks inside s) := by
  have hchars : ∀ s, Plain (chars s) := by
    intro s t ht
    obtain ⟨c, -, rfl⟩ := List.mem_map.mp ht
    rfl
  induction inside, s using boldMarks.induct with
  | case1 s ih =>
    rw [boldMarks, if_pos rfl]
    exact List.forall_mem_cons.mpr ⟨rfl, ih⟩
  | case2 inside s hinside hmore ih =>
    rw [boldMarks, if_neg hinside, if_pos hmore]
    exact List.forall_mem_cons.mpr ⟨rfl, ih⟩
  | case3 inside s hinside hmore =>
    rw [boldMarks, if_neg hinside, if_neg hmore]
    exact hchars _
  | case4 inside c s hnot ih =>
    rw [boldMarks]
    · exact List.forall_mem_cons.mpr ⟨rfl, ih⟩
    · exact hnot
  | case5 inside => exact nofun

theorem plain_italicMarks (prev inItalic : Bool) (h : Plain toks) :
    Plain (italicMarks prev inItalic toks) := by
  induction prev, inItalic, toks using italicMarks.induct with
  | case1 prev inItalic toks hsingle ih =>
    rw [italicMarks, if_pos hsingle]
    refine List.forall_mem_cons.mpr ⟨?_, ih fun t ht => h t (.tail _ ht)⟩
    cases inItalic <;> rfl
  | case2 prev inItalic toks hsingle ih =>
    rw [italicMarks, if_neg hsingle]
    exact List.forall_mem_cons.mpr ⟨rfl, ih fun t ht => h t (.tail _ ht)⟩
  | case3 prev inItalic t toks hnot ih =>
    rw [italicMarks]
    · exact List.forall_mem_cons.mpr ⟨h t (.head _), ih fun t ht => h t (.tail _ ht)⟩
    · exact hnot
  | case4 prev inItalic => exact nofun

theorem plain_codeMarks (inside : Bool) (h : Plain toks) : Plain (codeMarks inside toks) := by
  induction inside, toks using codeMarks.induct with
  | case1 toks ih =>
    rw [codeMarks, if_pos rfl]
    exact List.forall_mem_cons.mpr ⟨rfl, ih fun t ht => h t (.tail _ ht)⟩
  | case2 inside toks hinside hmore ih =>
    rw [codeMarks, if_neg hinside, if_pos hmore]
    exact List.forall_mem_cons.mpr ⟨rfl, ih fun t ht => h t (.tail _ ht)⟩
  | case3 inside toks hinside hmore =>
    rw [codeMarks, if_neg hinside, if_neg hmore]
    exact h
  | case4 inside t toks hnot ih =>
    rw [codeMarks]
    · exact List.forall_mem_cons.mpr ⟨h t (.head _), ih fun t ht => h t (.tail _ ht)⟩
    · exact hnot
  | case5 inside => exact nofun

theorem plain_marks (text : Str) : Plain (marks text) :=
  plain_codeMarks _ (plain_italicMarks _ _ (plain_boldMarks _ _))

theorem sourceOf_codeMarks (inside : Bool) (toks : List Tok) :
    sourceOf (codeMarks inside toks) = sourceOf toks := by
  induction inside, toks using codeMarks.induct with
  | case1 toks ih =>
    rw [codeMarks, if_pos rfl, sourceOf_cons, sourceOf_cons, ih]
    rfl
  | case2 inside toks hinside hmore ih =>
    rw [codeMarks, if_neg hinside, if_pos hmore, sourceOf_cons, sourceOf_cons, ih]
    rfl
  | case3 inside toks hinside hmore => rw [codeMarks, if_neg hinside, if_neg hmore]
  | case4 inside t toks hnot ih =>
    rw [codeMarks, sourceOf_cons, sourceOf_cons, ih]
    exact hnot
  | case5 inside => rfl

theorem sourceOf_marks (text : Str) : sourceOf (marks text) = text := by
  rw [marks, sourceOf_codeMarks, sourceOf_italicMarks, sourceOf_boldMarks]

theorem codeMarks_append (h : .char '\u0060' ∉ a) (r : List Tok) :
    codeMarks inside (a ++ r) = a ++ codeMarks inside r := by
  induction a with
  | nil => rfl
  | cons t a ih =>
    rw [List.mem_cons, not_or] at h
    rw [List.cons_append, codeMarks, ih h.2]
    · rfl
    · exact fun ht => h.1 ht.symm

theorem codeMarks_pair (ha : .char '\u0060' ∉ a) (hb : .char '\u0060' ∉ b) :
    codeMarks false (a ++ .char '\u0060' :: (b ++ .char '\u0060' :: r)) =
      a ++ .opening .code :: (b ++ .closing .code :: codeMarks false r) := by
  have hmore : .char '\u0060' ∈ b ++ .char '\u0060' :: r := by simp
  rw [codeMarks_append ha, codeMarks, if_neg Bool.false_ne_true, if_pos hmore, codeMarks_append hb,
    codeMarks, if_pos rfl]

theorem htmlOf_notMem (hplain : Plain a) (h : .char '\u0060' ∉ a) : '\u0060' ∉ htmlOf a := by
  intro hmem
  obtain ⟨t, ht, hc⟩ := List.mem_flatMap.mp hmem
  cases t with
  | char c =>
    obtain rfl : '\u0060' = c := List.mem_singleton.mp hc
    exact h ht
  | opening k => cases k <;> revert hc <;> decide
  | closing k => cases k <;> revert hc <;> decide
  | link url => cases hplain _ ht
  | unlink url => cases hplain _ ht

theorem Plain.append (h : Plain (a ++ r)) : Plain a ∧ Plain r := List.forall_mem_append.mp h

theorem rewrites_code (h : Plain toks) : Rewrites (pairTurn ['\u0060'] "<code>".toList
    "</code>".toList) (htmlOf toks) (htmlOf (codeMarks false toks)) := by
  have hmark : ∀ a, Plain a → .char '\u0060' ∉ a → ¬ ['\u0060'] <:+: htmlOf a ++ [] := by
    intro a ha hnot
    rw [List.append_nil, List.singleton_infix_iff]
    exact htmlOf_notMem ha hnot
  refine rewrites_pairs (k := .code) (fun l : { l : List Tok // Plain l } => htmlOf l.1)
    (fun l => htmlOf (codeMarks false l.1)) (fun l => l.1.length)
    (fun ⟨toks, hplain⟩ => ?_) (closed_nil _) ⟨toks, h⟩
  by_cases hfirst : .char '\u0060' ∈ toks
  · obtain ⟨a, rest, rfl, ha⟩ := List.eq_append_cons_of_mem hfirst
    obtain ⟨hpa, hrest⟩ := hplain.append
    by_cases hsecond : .char '\u0060' ∈ rest
    · obtain ⟨b, r, rfl, hb⟩ := List.eq_append_cons_of_mem hsecond
      obtain ⟨hpb, hr⟩ := Plain.append (fun t ht => hrest t (.tail _ ht))
      refine .inr ⟨htmlOf a, htmlOf b, ⟨r, fun t ht => hr t (.tail _ ht)⟩,
        ⟨?_, hmark a hpa ha, hmark b hpb hb⟩, ?_, ?_⟩
      · simp only [htmlOf_append, htmlOf_cons, List.append_assoc]
        rfl
      · simp only [List.length_append, List.length_cons]
        omega
      · rw [codeMarks_pair ha hb]
        simp only [htmlOf_append, htmlOf_cons, List.append_assoc]
    · have hr := hmark rest (fun t ht => hrest t (.tail _ ht)) hsecond
      rw [List.append_nil] at hr
      have hsplit : htmlOf (a ++ .char '\u0060' :: rest) =
          htmlOf a ++ Span.code.marker ++ htmlOf rest := by
        simp only [htmlOf_append, htmlOf_cons, List.append_assoc]
        rfl
      refine .inl ⟨?_, ?_⟩
      · rw [hsplit]
        exact pairTurn_single Span.code.marker_ne_nil (hmark a hpa ha) hr
      · rw [codeMarks_append ha, codeMarks, if_neg Bool.false_ne_true, if_neg hsecond]
  · have hnone := hmark toks hplain hfirst
    rw [List.append_nil] at hnone
    refine .inl ⟨pairTurn_none hnone, ?_⟩
    have hself : codeMarks false (toks ++ []) = toks ++ codeMarks false [] :=
      codeMarks_append hfirst []
    rw [List.append_nil] at hself
    exact congrArg htmlOf (hself.trans (List.append_nil _))

end Code

section Passes

variable {k : Span} {d : Char} {s t out : Str}

theorem pairTurn_count (hm : d ∈ k.marker) (ho : d ∉ (Tok.opening k).html)
    (hc : d ∉ (Tok.closing k).html)
    (h : pairTurn k.marker (Tok.opening k).html (Tok.closing k).html s = some t) :
    t.count d < s.count d := by
  obtain ⟨a, b, r, hmarked, rfl⟩ := (pairTurn_eq_some k.marker_ne_nil).mp h
  have hpos : 0 < k.marker.count d := List.count_pos_iff.mpr hm
  rw [hmarked.eq]
  simp only [List.count_append, List.count_eq_zero.mpr ho, List.count_eq_zero.mpr hc]
  omega

/-- There are turns enough. -/
theorem rewrite_pairs (hm : d ∈ k.marker) (ho : d ∉ (Tok.opening k).html)
    (hc : d ∉ (Tok.closing k).html)
    (h : Rewrites (pairTurn k.marker (Tok.opening k).html (Tok.closing k).html) s out) :
    rewrite (pairTurn k.marker (Tok.opening k).html (Tok.closing k).html) (s.length + 1) s =
      some out :=
  rewrite_of_rewrites (fun _ _ ht => pairTurn_count hm ho hc ht) h
    (Nat.lt_succ_of_le List.count_le_length)

/-- The links are left to be read in the marks of the text. -/
theorem markdownToTelegramHtml_eq (text : Str) : markdownToTelegramHtml text =
    rewrite (linkTurn htmlLink) ((htmlOf (marks text)).length + 1) (htmlOf (marks text)) := by
  have hbold : rewrite (pairTurn "**".toList "<b>".toList "</b>".toList) (text.length + 1) text =
      some (htmlOf (boldMarks false text)) :=
    rewrite_pairs (k := .bold) (d := '*') (by decide) (by decide) (by decide) (rewrites_bold text)
  have hplain := plain_italicMarks false false (plain_boldMarks false text)
  have hitalic := italicFrom_htmlOf false false _ (plain_boldMarks false text)
  have hcode := rewrite_pairs (k := .code) (d := '\u0060') (by decide) (by decide) (by decide)
    (rewrites_code hplain)
  rw [markdownToTelegramHtml, hbold, Option.bind_eq_bind, Option.bind_some, hitalic]
  exact congrArg (Option.bind · _) hcode

end Passes

end Clawreform.Channels.TelegramMarks
