import Clawreform.Lib.Splitting
import Clawreform.Lib.Tags
import Clawreform.Lib.Trimming
import Clawreform.Runtime.TextToolCalls

namespace Clawreform.Runtime.WrittenCalls

open Clawreform.Lib.Text Clawreform.Lib.Find Clawreform.Lib.Splitting Clawreform.Lib.Tags
open Clawreform.Lib.Trimming
open Clawreform.Lib.Json (Value)
open Clawreform.Types

section Spec

inductive Mark where
  | attribute
  | element
  | close
  deriving DecidableEq

def Mark.spelling : Mark → Str
  | .attribute => "<function=".toList
  | .element => "<function>".toList
  | .close => "</function>".toList

def Mark.opening (isElement : Bool) : Mark := if isElement then .element else .attribute

def marks : List Mark := [.attribute, .element, .close]

theorem lawful : Lawful marks Mark.spelling '<' where
  all := by
    rintro (_ | _ | _) <;> decide
  starts := by
    rintro (_ | _ | _) <;> exact ⟨_, rfl, by decide⟩
  prefixFree := by
    apply prefixFree_of_spellings
    rintro (_ | _ | _) (_ | _ | _) <;> decide

variable (parseJson : Str → Option Value) (toolNames : List Str)

/-- What stands between the tags of a call. -/
def callBody (isElement : Bool) (name json : Str) : Str :=
  name ++ (if isElement then json else '>' :: json)

/-- A call to an available tool, with the text of its JSON object and the form it is written
in. Its name ends where the form ends it, and between its tags stand neither the closing tag
nor the opening tag of the other form. -/
structure WrittenCall where
  isElement : Bool
  name : Str
  json : Str
  input : Value
  available : name ∈ toolNames
  delimited : if isElement then name ≠ [] ∧ trim name = name ∧ '\x7b' ∉ name else '>' ∉ name
  opens : json.head? = some '\x7b'
  closes : json.getLast? = some '\x7d'
  parses : parseJson json = some input
  unclosed : ¬ Mark.close.spelling <:+: callBody isElement name json
  unmixed : ¬ (Mark.opening !isElement).spelling <:+: callBody isElement name json

namespace WrittenCall

variable {parseJson toolNames} (c : WrittenCall parseJson toolNames)

def call : Str × Value := (c.name, c.input)

def body : Str := callBody c.isElement c.name c.json

def text : Str :=
  (Mark.opening c.isElement).spelling ++ (c.body ++ Mark.close.spelling)

def tokens : List (Token Mark) :=
  .tag (.opening c.isElement) :: (lex marks Mark.spelling 0 c.body ++ [.tag .close])

end WrittenCall

variable {parseJson toolNames}

/-- Calls, each with the text in front of it, and the text behind them. -/
def written : List (Str × WrittenCall parseJson toolNames) → Str → Str
  | [], last => last
  | (before, c) :: rest, last => before ++ (c.text ++ written rest last)

/-- No text around the calls opens one. -/
def Unopened (calls : List (Str × WrittenCall parseJson toolNames)) (last : Str) : Prop :=
  ∀ t ∈ last :: calls.map Prod.fst, ∀ isElement : Bool,
    ¬ (Mark.opening isElement).spelling <:+: t

instance (calls : List (Str × WrittenCall parseJson toolNames)) (last : Str) :
    Decidable (Unopened calls last) :=
  inferInstanceAs (Decidable (∀ t ∈ last :: calls.map Prod.fst, ∀ _ : Bool, _))

/-- The calls written in one of the forms, in their order. -/
def callsOf (isElement : Bool) (calls : List (Str × WrittenCall parseJson toolNames)) :
    List (Str × Value) :=
  (calls.filter (·.2.isElement == isElement)).map (·.2.call)

end Spec

section Reading

variable {t : Str} {parseJson : Str → Option Value} {toolNames : List Str}

theorem lex_call (c : WrittenCall parseJson toolNames) (s : Str) :
    lex marks Mark.spelling 0 (t ++ (c.text ++ s)) =
      lex marks Mark.spelling 0 t ++ (c.tokens ++ lex marks Mark.spelling 0 s) := by
  rw [WrittenCall.text, List.append_assoc, lawful.lex_append (lawful.not_crosses_tag _),
    lawful.lex_tag, List.append_assoc, lawful.lex_append (lawful.not_crosses_tag _),
    lawful.lex_tag, WrittenCall.tokens, List.cons_append, List.append_assoc,
    List.singleton_append]

theorem spell_tokens (c : WrittenCall parseJson toolNames) :
    spell Mark.spelling c.tokens = c.text := by
  have hclose : spell Mark.spelling [.tag .close] = Mark.close.spelling := rfl
  rw [WrittenCall.tokens, spell_cons, Token.text, spell_append, lawful.spell_lex, hclose,
    WrittenCall.text]

end Reading

section Passes

variable {parseJson : Str → Option Value} {toolNames : List Str} {s last : Str}
  {pre : List (Token Mark)} {calls : List (Str × WrittenCall parseJson toolNames)}

theorem trim_json (c : WrittenCall parseJson toolNames) : trim c.json = c.json := by
  apply trim_eq_self_of_ends
  · intro d hd
    rw [Option.mem_def, c.opens] at hd
    cases hd
    decide
  · intro d hd
    rw [Option.mem_def, c.closes] at hd
    cases hd
    decide

/-- The closing tag behind a text that does not hold it. -/
theorem find_close (hs : ¬ Mark.close.spelling <:+: s) (t : Str) :
    find Mark.close.spelling (s ++ (Mark.close.spelling ++ t)) = some s.length := by
  have hfirst : .tag Mark.close ∉ lex marks Mark.spelling 0 s := fun hmem =>
    hs (lawful.isInfix_of_mem hmem)
  have hread : lex marks Mark.spelling 0 (s ++ (Mark.close.spelling ++ t)) =
      lex marks Mark.spelling 0 s ++ .tag .close :: lex marks Mark.spelling 0 t := by
    rw [lawful.lex_append (lawful.not_crosses_tag _), lawful.lex_tag]
  have hcanonical := lawful.canonical_lex (s ++ (Mark.close.spelling ++ t))
  rw [hread] at hcanonical
  have hfind := lawful.find_tag hcanonical hfirst
  rwa [← hread, lawful.spell_lex, lawful.spell_lex] at hfind

theorem unopened_cons {before : Str} {c : WrittenCall parseJson toolNames}
    (h : Unopened ((before, c) :: calls) last) :
    (∀ isElement : Bool, .tag (Mark.opening isElement) ∉ lex marks Mark.spelling 0 before) ∧
      Unopened calls last := by
  rw [Unopened, List.map_cons, List.forall_mem_cons, List.forall_mem_cons] at h
  obtain ⟨hlast, hbefore, hcalls⟩ := h
  refine ⟨?_, List.forall_mem_cons.mpr ⟨hlast, hcalls⟩⟩
  intro isElement hmem
  exact hbefore isElement (lawful.isInfix_of_mem hmem)

/-- A call is found behind texts that do not hold its opening tag. -/
theorem find_call (before : Str) (c : WrittenCall parseJson toolNames)
    (hpre : .tag (Mark.opening c.isElement) ∉ pre ++ lex marks Mark.spelling 0 before)
    (hall : Canonical marks Mark.spelling
      (pre ++ lex marks Mark.spelling 0 (before ++ (c.text ++ s)))) :
    find (Mark.opening c.isElement).spelling
        (spell Mark.spelling (pre ++ lex marks Mark.spelling 0 before) ++ (c.text ++ s)) =
      some (spell Mark.spelling (pre ++ lex marks Mark.spelling 0 before)).length := by
  rw [lex_call, ← List.append_assoc] at hall
  have hcall : spell Mark.spelling (c.tokens ++ lex marks Mark.spelling 0 s) = c.text ++ s := by
    rw [spell_append, spell_tokens, lawful.spell_lex]
  rw [← hcall, ← spell_append]
  exact lawful.find_tag hall hpre

/-- A call written in the other form holds no opening tag of this one. -/
theorem opening_notMem_tokens (c : WrittenCall parseJson toolNames) :
    .tag (Mark.opening !c.isElement) ∉ c.tokens := by
  have hbody : .tag (Mark.opening !c.isElement) ∉ lex marks Mark.spelling 0 c.body := fun hmem =>
    c.unmixed (lawful.isInfix_of_mem hmem)
  have hopening : Mark.opening (!c.isElement) ≠ Mark.opening c.isElement := by
    cases c.isElement <;> decide
  have hclose : Mark.opening (!c.isElement) ≠ .close := by
    cases c.isElement <;> decide
  simp [WrittenCall.tokens, hbody, hopening, hclose]

theorem callsOf_cons {isElement : Bool} (before : Str) (c : WrittenCall parseJson toolNames)
    (h : c.isElement = isElement) :
    callsOf isElement ((before, c) :: calls) = c.call :: callsOf isElement calls := by
  rw [callsOf, callsOf, List.filter_cons_of_pos (by simpa using h), List.map_cons]

theorem callsOf_cons_of_other {isElement : Bool} (before : Str)
    (c : WrittenCall parseJson toolNames) (h : isElement = !c.isElement) :
    callsOf isElement ((before, c) :: calls) = callsOf isElement calls := by
  rw [callsOf, callsOf, List.filter_cons_of_neg (by simp [h])]

/-- A pass that takes every call of its form at its opening tag reads the calls that are
written in the form, in their order. -/
theorem scan_written (isElement : Bool)
    (scan : Nat → List (Str × Value) → Str → List (Str × Value))
    (add : List (Str × Value) → Str × Value → List (Str × Value))
    (hnone : ∀ fuel found s, find (Mark.opening isElement).spelling s = none →
      scan fuel found s = found)
    (hstep : ∀ fuel found front behind, ∀ c : WrittenCall parseJson toolNames,
      c.isElement = isElement → find (Mark.opening isElement).spelling
        (front ++ (c.text ++ behind)) = some front.length →
      scan (fuel + 1) found (front ++ (c.text ++ behind)) = scan fuel (add found c.call) behind)
    {fuel : Nat} (found : List (Str × Value)) (hcalls : Unopened calls last)
    (hpre : .tag (Mark.opening isElement) ∉ pre)
    (hall : Canonical marks Mark.spelling
      (pre ++ lex marks Mark.spelling 0 (written calls last)))
    (hfuel : (spell Mark.spelling pre ++ written calls last).length ≤ fuel) :
    scan fuel found (spell Mark.spelling pre ++ written calls last) =
      (callsOf isElement calls).foldl add found := by
  induction calls generalizing pre fuel found with
  | nil =>
    have hlast : .tag (Mark.opening isElement) ∉ lex marks Mark.spelling 0 last := fun hmem =>
      hcalls last List.mem_cons_self isElement (lawful.isInfix_of_mem hmem)
    have hfind := lawful.find_none hall (List.mem_append.not.mpr (not_or.mpr ⟨hpre, hlast⟩))
    rw [spell_append, lawful.spell_lex] at hfind
    exact hnone fuel found _ hfind
  | cons p calls ih =>
    obtain ⟨before, c⟩ := p
    obtain ⟨hbefore, hrest⟩ := unopened_cons hcalls
    have hfront : .tag (Mark.opening isElement) ∉ pre ++ lex marks Mark.spelling 0 before :=
      List.mem_append.not.mpr (not_or.mpr ⟨hpre, hbefore isElement⟩)
    rw [written] at hall hfuel ⊢
    have htext : spell Mark.spelling pre ++ (before ++ (c.text ++ written calls last)) =
        spell Mark.spelling (pre ++ lex marks Mark.spelling 0 before) ++
          (c.text ++ written calls last) := by
      rw [spell_append, lawful.spell_lex, List.append_assoc]
    rw [htext] at hfuel ⊢
    by_cases hform : c.isElement = isElement
    · subst hform
      have hopen := find_call before c hfront hall
      have hcanonical := lawful.canonical_lex (written calls last)
      have hpos : 0 < c.text.length := by
        rw [WrittenCall.text, List.length_append]
        have := List.length_pos_of_ne_nil (lawful.ne_nil (Mark.opening c.isElement))
        omega
      rw [List.length_append, List.length_append] at hfuel
      cases fuel with
      | zero => omega
      | succ fuel =>
        have hshort : (written calls last).length ≤ fuel := by omega
        rw [hstep fuel found _ _ c rfl hopen, callsOf_cons before c rfl, List.foldl_cons]
        exact ih (add found c.call) hrest List.not_mem_nil hcanonical hshort
    · have hother : isElement = !c.isElement := by
        cases isElement <;> simpa using hform
      subst hother
      have hskip : .tag (Mark.opening !c.isElement) ∉
          pre ++ lex marks Mark.spelling 0 before ++ c.tokens :=
        List.mem_append.not.mpr (not_or.mpr ⟨hfront, opening_notMem_tokens c⟩)
      have hcall : spell Mark.spelling (pre ++ lex marks Mark.spelling 0 before ++ c.tokens) =
          spell Mark.spelling (pre ++ lex marks Mark.spelling 0 before) ++ c.text := by
        rw [spell_append, spell_tokens]
      rw [lex_call, ← List.append_assoc, ← List.append_assoc] at hall
      rw [← List.append_assoc, ← hcall] at hfuel ⊢
      rw [callsOf_cons_of_other before c rfl]
      exact ih found hrest hskip hall hfuel

theorem attributeCalls_step (fuel : Nat) (c : WrittenCall parseJson toolNames)
    {front behind : Str} (hform : c.isElement = false)
    (hopen : find "<function=".toList (front ++ (c.text ++ behind)) = some front.length) :
    attributeCalls parseJson toolNames (fuel + 1) (front ++ (c.text ++ behind)) =
      c.call :: attributeCalls parseJson toolNames fuel behind := by
  have hbody : c.body = c.name ++ '>' :: c.json := by
    rw [WrittenCall.body, callBody, hform]
    rfl
  have hdelimited := c.delimited
  rw [hform] at hdelimited
  have hname : find ">".toList (c.name ++ '>' :: (c.json ++ (Mark.close.spelling ++ behind))) =
      some c.name.length := find_notMem hdelimited
  have hunclosed : ¬ Mark.close.spelling <:+: c.json := by
    intro hjson
    apply c.unclosed
    change _ <:+: c.body
    rw [hbody]
    exact hjson.trans ((List.suffix_cons '>' c.json).trans (List.suffix_append ..)).isInfix
  have hclose : find "</function>".toList (c.json ++ (Mark.close.spelling ++ behind)) =
      some c.json.length := find_close hunclosed behind
  have htext : front ++ (c.text ++ behind) = (front ++ Mark.attribute.spelling) ++
      (c.name ++ '>' :: (c.json ++ (Mark.close.spelling ++ behind))) := by
    simp [WrittenCall.text, Mark.opening, hbody, hform]
  have hdropTag : (front ++ (c.text ++ behind)).drop (front.length + "<function=".toList.length) =
      c.name ++ '>' :: (c.json ++ (Mark.close.spelling ++ behind)) := by
    rw [htext, ← List.length_append]
    exact List.drop_left
  have hdropName : (c.name ++ '>' :: (c.json ++ (Mark.close.spelling ++ behind))).drop
      (c.name.length + 1) = c.json ++ (Mark.close.spelling ++ behind) := by
    rw [List.append_cons, ← List.length_singleton (a := '>'), ← List.length_append,
      List.drop_left]
  have hdropJson : (c.json ++ (Mark.close.spelling ++ behind)).drop
      (c.json.length + "</function>".toList.length) = behind := by
    rw [← List.append_assoc, ← List.length_append]
    exact List.drop_left
  rw [attributeCalls, hopen]
  dsimp only
  rw [hdropTag, hname]
  dsimp only
  rw [List.take_left, hdropName, hclose]
  dsimp only
  rw [if_pos c.available, List.take_left, trim_json, c.parses, hdropJson]
  rfl

local instance instLawfulBEqCall : LawfulBEq (Str × Value) := Prod.instLawfulBEq

/-- Add a call that is not there. -/
def addCall (found : List (Str × Value)) (call : Str × Value) : List (Str × Value) :=
  if call ∈ found then found else found ++ [call]

theorem elementCalls_step (fuel : Nat) (c : WrittenCall parseJson toolNames)
    {front behind : Str} (found : List (Str × Value)) (hform : c.isElement = true)
    (hopen : find "<function>".toList (front ++ (c.text ++ behind)) = some front.length) :
    elementCalls parseJson toolNames (fuel + 1) found (front ++ (c.text ++ behind)) =
      elementCalls parseJson toolNames fuel (addCall found c.call) behind := by
  have hbody : c.body = c.name ++ c.json := by rw [WrittenCall.body, callBody, if_pos hform]
  have hdelimited := c.delimited
  rw [if_pos hform] at hdelimited
  obtain ⟨hnamed, htrim, hplain⟩ := hdelimited
  obtain ⟨r, hr⟩ := List.head?_eq_some_iff.mp c.opens
  have hbrace : find "\x7b".toList (c.name ++ c.json) = some c.name.length := by
    rw [hr]
    exact find_notMem hplain
  have hclose : find "</function>".toList (c.body ++ (Mark.close.spelling ++ behind)) =
      some c.body.length := find_close c.unclosed behind
  have htext : front ++ (c.text ++ behind) = (front ++ Mark.element.spelling) ++
      (c.body ++ (Mark.close.spelling ++ behind)) := by
    simp [WrittenCall.text, Mark.opening, hform]
  have hdropTag : (front ++ (c.text ++ behind)).drop (front.length + "<function>".toList.length) =
      c.body ++ (Mark.close.spelling ++ behind) := by
    rw [htext, ← List.length_append]
    exact List.drop_left
  have hdropBody : (c.body ++ (Mark.close.spelling ++ behind)).drop
      (c.body.length + "</function>".toList.length) = behind := by
    rw [← List.append_assoc, ← List.length_append]
    exact List.drop_left
  have hknown : ¬ (c.name = [] ∨ c.name ∉ toolNames) := by
    rw [not_or, not_not]
    exact ⟨hnamed, c.available⟩
  rw [elementCalls, hopen]
  dsimp only
  rw [hdropTag, hclose]
  dsimp only
  rw [List.take_left, hdropBody, hbody, hbrace]
  dsimp only
  rw [List.take_left, List.drop_left, htrim, if_neg hknown, trim_json, c.parses]
  dsimp only
  change (if c.call ∈ found then _ else _) = _
  rw [addCall]
  split
  · rfl
  · rfl

theorem attributeCalls_none (fuel : Nat) (hfind : find "<function=".toList s = none) :
    attributeCalls parseJson toolNames fuel s = [] := by
  cases fuel with
  | zero => rfl
  | succ fuel => rw [attributeCalls, hfind]

theorem elementCalls_none (fuel : Nat) (found : List (Str × Value)) (s : Str)
    (hfind : find "<function>".toList s = none) :
    elementCalls parseJson toolNames fuel found s = found := by
  cases fuel with
  | zero => rfl
  | succ fuel => rw [elementCalls, hfind]

/-- The pass over the first form finds the calls that are written in it. -/
theorem attributeCalls_written (hcalls : Unopened calls last) :
    attributeCalls parseJson toolNames (written calls last).length (written calls last) =
      callsOf false calls := by
  have hnone : ∀ fuel found s, find (Mark.opening false).spelling s = none →
      found ++ attributeCalls parseJson toolNames fuel s = found := by
    intro fuel found s hfind
    rw [attributeCalls_none fuel hfind, List.append_nil]
  have hstep : ∀ fuel (found : List (Str × Value)) front behind,
      ∀ c : WrittenCall parseJson toolNames, c.isElement = false →
      find (Mark.opening false).spelling (front ++ (c.text ++ behind)) = some front.length →
      found ++ attributeCalls parseJson toolNames (fuel + 1) (front ++ (c.text ++ behind)) =
        found ++ [c.call] ++ attributeCalls parseJson toolNames fuel behind := by
    intro fuel found front behind c hform hopen
    rw [attributeCalls_step fuel c hform hopen, List.append_cons]
  have hscan := scan_written false
    (fun fuel found s => found ++ attributeCalls parseJson toolNames fuel s)
    (fun found call => found ++ [call]) hnone hstep [] hcalls List.not_mem_nil
    (lawful.canonical_lex (written calls last)) le_rfl
  rwa [List.foldl_append_eq_append, ← List.flatMap_def, List.flatMap_singleton', List.nil_append,
    List.nil_append] at hscan

/-- The pass over the second form adds the calls that are written in it. -/
theorem elementCalls_written (found : List (Str × Value)) (hcalls : Unopened calls last) :
    elementCalls parseJson toolNames (written calls last).length found (written calls last) =
      (callsOf true calls).foldl addCall found :=
  scan_written true (elementCalls parseJson toolNames) addCall elementCalls_none
    (fun fuel found _ _ c hform hopen => elementCalls_step fuel c found hform hopen) found
    hcalls List.not_mem_nil (lawful.canonical_lex (written calls last)) le_rfl

/-- Calls that are different from each other are all added, apart from those there. -/
theorem foldl_addCall {found new : List (Str × Value)} (hnew : new.Nodup) :
    new.foldl addCall found = found ++ new.filter (· ∉ found) := by
  induction new generalizing found with
  | nil => exact (List.append_nil _).symm
  | cons call new ih =>
    obtain ⟨hcall, hnew⟩ := List.nodup_cons.mp hnew
    rw [List.foldl_cons, ih hnew, addCall]
    split
    · rename_i hmem
      rw [List.filter_cons_of_neg (by simp [hmem])]
    · rename_i hmem
      have hfilter : new.filter (· ∉ found ++ [call]) = new.filter (· ∉ found) := by
        apply List.filter_congr
        intro other hother
        have hne : other ≠ call := fun heq => hcall (heq ▸ hother)
        simp [hne]
      rw [List.filter_cons_of_pos (by simp [hmem]), hfilter, List.append_assoc,
        List.singleton_append]

end Passes

section Soundness

variable {parseJson : Str → Option Value} {toolNames : List Str} {s t : Str}

/-- A call to an available tool whose JSON text stands in the text. -/
def Stands (parseJson : Str → Option Value) (toolNames : List Str) (s : Str)
    (call : Str × Value) : Prop :=
  call.1 ∈ toolNames ∧ ∃ json, json <:+: s ∧ parseJson json = some call.2

theorem Stands.mono {call : Str × Value} (h : Stands parseJson toolNames t call) (hts : t <:+: s) :
    Stands parseJson toolNames s call := by
  obtain ⟨hname, json, hjson, hparse⟩ := h
  exact ⟨hname, json, hjson.trans hts, hparse⟩

theorem attributeCalls_stand (fuel : Nat) (s : Str) :
    ∀ call ∈ attributeCalls parseJson toolNames fuel s, Stands parseJson toolNames s call := by
  induction fuel generalizing s with
  | zero => exact fun _ hcall => absurd hcall List.not_mem_nil
  | succ fuel ih =>
    intro call hcall
    rw [attributeCalls] at hcall
    split at hcall
    · cases hcall
    rename_i start hstart
    have hafter := (List.drop_suffix (start + "<function=".toList.length) s).isInfix
    dsimp only at hcall
    generalize s.drop (start + "<function=".toList.length) = after at hcall hafter
    split at hcall
    · exact (ih after call hcall).mono hafter
    rename_i nameEnd hname
    have hbody := (List.drop_suffix (nameEnd + 1) after).isInfix.trans hafter
    generalize after.drop (nameEnd + 1) = body at hcall hbody
    split at hcall
    · exact (ih body call hcall).mono hbody
    rename_i close hclose
    have hrest : ∀ call ∈ attributeCalls parseJson toolNames fuel
        (body.drop (close + "</function>".toList.length)), Stands parseJson toolNames s call := by
      intro call hcall
      have hdrop := (List.drop_suffix (close + "</function>".toList.length) body).isInfix
      exact (ih _ call hcall).mono (hdrop.trans hbody)
    split at hcall
    · rename_i havailable
      split at hcall
      · rename_i input hparse
        obtain rfl | hcall := List.mem_cons.mp hcall
        · have hjson := (trim_isInfix (body.take close)).trans (List.take_prefix close body).isInfix
          exact ⟨havailable, _, hjson.trans hbody, hparse⟩
        · exact hrest call hcall
      · exact hrest call hcall
    · exact hrest call hcall

theorem elementCalls_stand (fuel : Nat) (found : List (Str × Value)) (s : Str) :
    ∀ call ∈ elementCalls parseJson toolNames fuel found s,
      call ∈ found ∨ Stands parseJson toolNames s call := by
  induction fuel generalizing found s with
  | zero => exact fun _ hcall => .inl hcall
  | succ fuel ih =>
    intro call hcall
    rw [elementCalls] at hcall
    split at hcall
    · exact .inl hcall
    rename_i start hstart
    have hafter := (List.drop_suffix (start + "<function>".toList.length) s).isInfix
    dsimp only at hcall
    generalize s.drop (start + "<function>".toList.length) = after at hcall hafter
    split at hcall
    · exact (ih found after call hcall).imp_right fun h => h.mono hafter
    rename_i close hclose
    have hinner := (List.take_prefix close after).isInfix.trans hafter
    have hdrop := (List.drop_suffix (close + "</function>".toList.length) after).isInfix
    replace hdrop := hdrop.trans hafter
    generalize after.take close = inner at hcall hinner
    generalize after.drop (close + "</function>".toList.length) = rest at hcall hdrop
    have hrest : call ∈ elementCalls parseJson toolNames fuel found rest →
        call ∈ found ∨ Stands parseJson toolNames s call := fun hcall =>
      (ih found rest call hcall).imp_right fun h => h.mono hdrop
    split at hcall
    · exact hrest hcall
    rename_i brace hbrace
    split at hcall
    · exact hrest hcall
    rename_i hknown
    split at hcall
    · exact hrest hcall
    rename_i input hparse
    split at hcall
    · exact hrest hcall
    obtain hcall | hcall := ih _ rest call hcall
    · obtain hcall | hcall := List.mem_append.mp hcall
      · exact .inl hcall
      · rw [List.mem_singleton.mp hcall]
        have hjson := (trim_isInfix (inner.drop brace)).trans (List.drop_suffix brace inner).isInfix
        exact .inr ⟨not_not.mp (not_or.mp hknown).2, _, hjson.trans hinner, hparse⟩
    · exact .inr (hcall.mono hdrop)

end Soundness

section Result

variable (parseJson : Str → Option Value) (newUuid : Nat → Str) (tools : List ToolDefinition)

/-- The names and arguments of the calls found in a text. -/
def recovered (s : Str) : List (Str × Value) :=
  (recoverTextToolCalls parseJson newUuid s tools).map fun call => (call.name, call.input)

theorem recovered_eq (s : Str) : recovered parseJson newUuid tools s =
    elementCalls parseJson (tools.map ToolDefinition.name) s.length
      (attributeCalls parseJson (tools.map ToolDefinition.name) s.length s) s := by
  rw [recovered, recoverTextToolCalls]
  apply List.ext_getElem
  · rw [List.length_map, List.length_mapIdx]
  · intro i hi hi'
    rw [List.getElem_map, List.getElem_mapIdx]

theorem recovered_stand (s : Str) : ∀ call ∈ recovered parseJson newUuid tools s,
    Stands parseJson (tools.map ToolDefinition.name) s call := by
  intro call hcall
  rw [recovered_eq] at hcall
  obtain hcall | hcall := elementCalls_stand _ _ s call hcall
  · exact attributeCalls_stand _ s call hcall
  · exact hcall

/-- The calls written in a text are found, those of the first form before those of the second,
and every call found in a text is a call to an available tool with a JSON text of the text. -/
theorem recovered_written :
    (∀ (calls : List (Str × WrittenCall parseJson (tools.map ToolDefinition.name))) (last : Str),
      Unopened calls last → (callsOf true calls).Nodup →
      recovered parseJson newUuid tools (written calls last) = callsOf false calls ++
        (callsOf true calls).filter (· ∉ callsOf false calls)) ∧
    ∀ s, ∀ call ∈ recovered parseJson newUuid tools s,
      Stands parseJson (tools.map ToolDefinition.name) s call := by
  refine ⟨?_, recovered_stand parseJson newUuid tools⟩
  intro calls last hcalls hdistinct
  rw [recovered_eq, attributeCalls_written hcalls, elementCalls_written _ hcalls,
    foldl_addCall hdistinct]

end Result

section Runs

def emptyObject (json : Str) : Option Value :=
  if json = "\x7b\x7d".toList then some (.object []) else none

def shell : ToolDefinition := ⟨"shell_exec".toList, "Run a command".toList, .object []⟩

def shellCall (isElement : Bool) : WrittenCall emptyObject ([shell].map ToolDefinition.name) where
  isElement := isElement
  name := "shell_exec".toList
  json := "\x7b\x7d".toList
  input := .object []
  available := by decide +kernel
  delimited := by cases isElement <;> decide +kernel
  opens := by decide +kernel
  closes := by decide +kernel
  parses := by decide +kernel
  unclosed := by cases isElement <;> decide +kernel
  unmixed := by cases isElement <;> decide +kernel

/-- A note, a call in the second form, a word and the same call in the first form. -/
def shellCalls : List (Str × WrittenCall emptyObject ([shell].map ToolDefinition.name)) :=
  [("I look. ".toList, shellCall true), ("Again: ".toList, shellCall false)]

theorem recovered_written_shell :
    recovered emptyObject (fun _ => []) [shell] (written shellCalls []) =
        [("shell_exec".toList, .object [])] ∧
      ∀ call ∈ recovered emptyObject (fun _ => []) [shell] (written shellCalls []),
        Stands emptyObject ([shell].map ToolDefinition.name) (written shellCalls []) call := by
  obtain ⟨hcomplete, hsound⟩ := recovered_written emptyObject (fun _ => []) [shell]
  refine ⟨?_, hsound _⟩
  rw [hcomplete shellCalls [] (by decide +kernel) (by decide +kernel)]
  decide +kernel

/-- A call written in both forms is found once. -/
theorem recovered_twice_written :
    Unopened shellCalls [] ∧ recovered emptyObject (fun _ => []) [shell] (written shellCalls []) ≠
      shellCalls.map (·.2.call) := by
  decide +kernel

end Runs

end Clawreform.Runtime.WrittenCalls
