import Clawreform.Channels.Bridge
import Clawreform.Lib.Find
import Clawreform.Lib.Passes

namespace Clawreform.Channels.Formatter

open Clawreform.Lib.Text Clawreform.Lib.Find Clawreform.Lib.Rewriting Clawreform.Lib.Infix

section Code

/-- What stands between two markers is put between two others. -/
def pairTurn (marker opening closing s : Str) : Option Str :=
  (find marker s).bind fun start =>
    let behind := s.drop (start + marker.length)
    (find marker behind).map fun stop =>
      s.take start ++ opening ++ behind.take stop ++ closing ++ behind.drop (stop + marker.length)

def linkTurn (link : Str → Str → Str) (s : Str) : Option Str :=
  (find ['['] s).bind fun bracketStart =>
    (find "](".toList (s.drop bracketStart)).bind fun bracketEnd =>
      let behind := s.drop (bracketStart + bracketEnd + 2)
      (find [')'] behind).map fun parenEnd =>
        let linkText := ((s.drop bracketStart).take bracketEnd).tail
        let url := behind.take parenEnd
        s.take bracketStart ++ link linkText url ++ behind.drop (parenEnd + 1)

/-- A star without another one next to it, behind a star or not. -/
def single (prev : Bool) (c : Char) (s : Str) : Bool := c == '*' && !prev && s.head? != some '*'

def italicFrom : Bool → Bool → Str → Str
  | _, _, [] => []
  | prev, inItalic, c :: s =>
    if single prev c s then
      (if inItalic then "</i>".toList else "<i>".toList) ++ italicFrom true (!inItalic) s
    else c :: italicFrom (c == '*') inItalic s

def htmlLink (linkText url : Str) : Str :=
  "<a href=\"".toList ++ url ++ "\">".toList ++ linkText ++ "</a>".toList

def markdownToTelegramHtml (text : Str) : Option Str := do
  let result ← rewrite (pairTurn "**".toList "<b>".toList "</b>".toList) (text.length + 1) text
  let result := italicFrom false false result
  let result ← rewrite (pairTurn "\x60".toList "<code>".toList "</code>".toList) (result.length + 1)
    result
  rewrite (linkTurn htmlLink) (result.length + 1) result

def slackLink (linkText url : Str) : Str := '<' :: url ++ '|' :: linkText ++ ['>']

def markdownToSlackMrkdwn (text : Str) : Option Str := do
  let result ← rewrite (pairTurn "**".toList ['*'] ['*']) (text.length + 1) text
  rewrite (linkTurn slackLink) (result.length + 1) result

def removeSingle : Bool → Str → Str
  | _, [] => []
  | prev, c :: s =>
    if single prev c s then removeSingle true s else c :: removeSingle (c == '*') s

def plainLink (linkText url : Str) : Str := linkText ++ " (".toList ++ url ++ [')']

def markdownToPlain (text : Str) : Option Str :=
  let result := replaceText text "**".toList []
  let result := removeSingle false result
  let result := replaceText result ['\u0060'] []
  rewrite (linkTurn plainLink) (result.length + 1) result

def formatForChannel (text : Str) : OutputFormat → Option Str
  | .markdown => some text
  | .telegramHtml => markdownToTelegramHtml text
  | .slackMrkdwn => markdownToSlackMrkdwn text
  | .plainText => markdownToPlain text

example : markdownToTelegramHtml "**a** [*b*](u) \x60c\x60".toList =
    some "<b>a</b> <a href=\"u\"><i>b</i></a> <code>c</code>".toList := by
  repeat rw [String.toList_ofList]
  decide +kernel

end Code

section Turns

variable {m opening closing s t a b u r : Str} {link : Str → Str → Str}

/-- A text with two markers in it: neither of them ends before it does where it stands. -/
structure Marked (m a b r s : Str) : Prop where
  eq : s = a ++ m ++ (b ++ m ++ r)
  first : ¬ m <:+: a ++ m.dropLast
  second : ¬ m <:+: b ++ m.dropLast

theorem pairTurn_eq_some (hm : m ≠ []) : pairTurn m opening closing s = some t ↔
    ∃ a b r, Marked m a b r s ∧ t = a ++ opening ++ b ++ closing ++ r := by
  constructor
  · intro h
    obtain ⟨start, hstart, h⟩ := Option.bind_eq_some_iff.mp h
    obtain ⟨stop, hstop, ht⟩ := Option.map_eq_some_iff.mp h
    obtain ⟨a, rest, rfl, rfl, hfirst⟩ := exists_of_find hm hstart
    have hdrop : (a ++ m ++ rest).drop (a.length + m.length) = rest := by
      rw [← List.length_append, List.drop_left]
    rw [hdrop] at hstop ht
    obtain ⟨b, r, rfl, rfl, hsecond⟩ := exists_of_find hm hstop
    refine ⟨a, b, r, ⟨rfl, hfirst, hsecond⟩, ?_⟩
    rw [← ht, List.append_assoc a m, List.take_left, List.append_assoc b m, List.take_left,
      ← List.append_assoc b m, ← List.length_append, List.drop_left]
  · rintro ⟨a, b, r, ⟨rfl, hfirst, hsecond⟩, rfl⟩
    have hdrop : (a ++ m ++ (b ++ m ++ r)).drop (a.length + m.length) = b ++ m ++ r := by
      rw [← List.length_append, List.drop_left]
    rw [pairTurn, (find_append_iff hm).mpr hfirst, Option.bind_some]
    dsimp only
    rw [hdrop, (find_append_iff hm).mpr hsecond, Option.map_some, List.append_assoc a m,
      List.take_left, ← List.length_append, List.drop_left, List.append_assoc b m, List.take_left]

/-- A text with a link in it, the first one from the first bracket on. -/
structure Linking (a b u r s : Str) : Prop where
  eq : s = a ++ '[' :: (b ++ "](".toList ++ (u ++ ')' :: r))
  bracket : '[' ∉ a
  text : ¬ "](".toList <:+: b
  url : ')' ∉ u

/-- Neither the bracket in front nor the one behind is part of the middle of a link. -/
theorem middle_infix_iff : "](".toList <:+: '[' :: b ++ [']'] ↔ "](".toList <:+: b := by
  constructor
  · rintro ⟨x, y, hxy⟩
    obtain rfl | ⟨y, c, rfl⟩ := List.eq_nil_or_concat' y
    · have hlast := congrArg List.getLast? hxy
      rw [List.append_nil, List.getLast?_append, List.getLast?_append] at hlast
      cases hlast
    · cases x with
      | nil => cases hxy
      | cons d x =>
        rw [← List.append_assoc] at hxy
        have hinit := List.append_inj_left' hxy rfl
        exact ⟨x, y, List.tail_eq_of_cons_eq hinit⟩
  · rintro ⟨x, y, rfl⟩
    exact ⟨'[' :: x, y ++ [']'], by simp⟩

theorem Linking.drops (h : Linking a b u r s) : s.drop a.length = '[' :: b ++ "](".toList ++
      (u ++ ')' :: r) ∧ s.drop (a.length + (b.length + 1) + 2) = u ++ ')' :: r := by
  have hbracket : s.drop a.length = '[' :: b ++ "](".toList ++ (u ++ ')' :: r) := by
    rw [h.eq, List.drop_left]
    rfl
  refine ⟨hbracket, ?_⟩
  have hlen : ('[' :: b ++ "](".toList).length = b.length + 1 + 2 := List.length_append
  rw [Nat.add_assoc, ← List.drop_drop, hbracket, ← hlen, List.drop_left]

theorem Linking.turn (h : Linking a b u r s) : linkTurn link s = some (a ++ link b u ++ r) := by
  obtain ⟨hbracket, hparen⟩ := h.drops
  have hstart : find ['['] s = some a.length := by
    have hfirst : ¬ ['['] <:+: a ++ [] := by
      rw [List.append_nil, List.singleton_infix_iff]
      exact h.bracket
    have hfind := (find_append_iff (b := b ++ "](".toList ++ (u ++ ')' :: r))
      (by decide)).mpr hfirst
    rw [List.append_assoc] at hfind
    rw [h.eq]
    exact hfind
  have hend : find "](".toList (s.drop a.length) = some (b.length + 1) := by
    rw [hbracket]
    exact (find_append_iff (by decide)).mpr (mt middle_infix_iff.mp h.text)
  have hclose : find [')'] (u ++ ')' :: r) = some u.length := by
    have hfirst : ¬ [')'] <:+: u ++ [] := by
      rw [List.append_nil, List.singleton_infix_iff]
      exact h.url
    have hfind := (find_append_iff (b := r) (by decide)).mpr hfirst
    rwa [List.append_assoc] at hfind
  have htake : s.take a.length = a := by rw [h.eq, List.take_left]
  rw [linkTurn, hstart, Option.bind_some, hend, Option.bind_some]
  dsimp only
  rw [hparen, hclose, Option.map_some, htake, hbracket]
  have hlinkText : (('[' :: b ++ "](".toList ++ (u ++ ')' :: r)).take (b.length + 1)).tail = b := by
    rw [List.append_assoc]
    exact congrArg List.tail (@List.take_left _ ('[' :: b) _)
  have hrest : (u ++ ')' :: r).drop (u.length + 1) = r := by
    rw [← List.drop_drop, List.drop_left]
    rfl
  rw [hlinkText, hrest, List.take_left]

theorem linkTurn_eq_some : linkTurn link s = some t ↔
    ∃ a b u r, Linking a b u r s ∧ t = a ++ link b u ++ r := by
  constructor
  · intro h
    obtain ⟨a, b, u, r, hlinking⟩ : ∃ a b u r, Linking a b u r s := by
      obtain ⟨bracketStart, hstart, h⟩ := Option.bind_eq_some_iff.mp h
      obtain ⟨bracketEnd, hend, h⟩ := Option.bind_eq_some_iff.mp h
      obtain ⟨parenEnd, hparen, -⟩ := Option.map_eq_some_iff.mp h
      obtain ⟨a, rest, rfl, rfl, hbracket⟩ := exists_of_find (by decide) hstart
      have hopen : (a ++ ['['] ++ rest).drop a.length = '[' :: rest := by
        rw [List.append_assoc, List.drop_left]
        rfl
      rw [hopen] at hend
      obtain ⟨front, behind, hfront, rfl, htext⟩ := exists_of_find (by decide) hend
      obtain _ | ⟨d, b⟩ := front
      · cases hfront
      obtain ⟨rfl, rfl⟩ : d = '[' ∧ rest = b ++ "](".toList ++ behind := by
        injection hfront with hd hrest
        exact ⟨hd.symm, hrest⟩
      have hclose : (a ++ ['['] ++ (b ++ "](".toList ++ behind)).drop
          (a.length + ('[' :: b).length + 2) = behind := by
        have hlen : ('[' :: b ++ "](".toList).length = ('[' :: b).length + 2 := List.length_append
        rw [Nat.add_assoc, ← List.drop_drop, hopen, hfront, ← hlen, List.drop_left]
      rw [hclose] at hparen
      obtain ⟨u, r, rfl, -, hurl⟩ := exists_of_find (by decide) hparen
      refine ⟨a, b, u, r, ?_, ?_, mt middle_infix_iff.mpr htext, ?_⟩
      · rw [List.append_assoc, List.append_assoc u]
        rfl
      · intro hmem
        exact hbracket ((List.singleton_infix_iff _ _).mpr (List.mem_append_left _ hmem))
      · intro hmem
        exact hurl ((List.singleton_infix_iff _ _).mpr (List.mem_append_left _ hmem))
    refine ⟨a, b, u, r, hlinking, ?_⟩
    exact Option.some.inj (h.symm.trans hlinking.turn)
  · rintro ⟨a, b, u, r, hlinking, rfl⟩
    exact hlinking.turn

end Turns

end Clawreform.Channels.Formatter
