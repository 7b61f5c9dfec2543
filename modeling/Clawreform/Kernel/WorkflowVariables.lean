import Clawreform.Lib.Template
import Clawreform.Kernel.WorkflowRuns

namespace Clawreform.Kernel.WorkflowVariables

open Clawreform.Lib.Text Clawreform.Lib.Store Clawreform.Lib.Template WorkflowEngine

section Expanding

def opening : Str := "\x7b\x7b".toList

def closing : Str := "\x7d\x7d".toList

def inputName : Str := "input".toList

/-- What a name stands for. A variable called `input` is hidden by the input. -/
def valueOf (input : Str) (vars : Map Str Str) (name : Str) : Option Str :=
  if name = inputName then some input else vars.lookup name

/-- The template with its placeholders replaced by their values, all at once. -/
def expanded (template input : Str) (vars : Map Str Str) : Str :=
  substitute opening closing (valueOf input vars) template

/-- The values in their places never spell a placeholder that the template does not have,
whichever of the names have been replaced. -/
structure NothingSpelled (template input : Str) (vars : Map Str Str) : Prop where
  ofInput : Clear opening closing [] inputName
    (partsOf opening closing (valueOf input vars) template)
  ofVariable : ∀ filled name, inputName ∈ filled → name ∈ vars →
    (name ∈ filled → name = inputName) →
    Clear opening closing filled name (partsOf opening closing (valueOf input vars) template)

theorem mark_ne_nil (name : Str) : mark opening closing name ≠ [] := by
  intro h
  have hlen := congrArg List.length h
  simp [mark, opening] at hlen

/-- The passes of the code: the input, then the variables as the map yields them. -/
theorem expandVariables_eq (W : WorkflowWorld) (template input : Str) (vars : Map Str Str) :
    expandVariables W template input vars =
      ((inputName, input) :: W.iterate vars).foldl
        (fun s b => replaceText s (mark opening closing b.1) b.2) template := by
  have hinput : "\x7b\x7binput\x7d\x7d".toList = mark opening closing inputName := by
    decide +kernel
  rw [expandVariables, hinput]
  rfl

section Order

variable {vars : Map Str Str} {order : List (Str × Str)}

theorem lookup_of_mem_order (h : order.Perm (vars.entries.map fun e => (e.1, e.2)))
    {name value : Str} (hmem : (name, value) ∈ order) : vars.lookup name = some value := by
  obtain ⟨e, he, heq⟩ := List.mem_map.mp (h.mem_iff.mp hmem)
  cases heq
  exact mem_entries.mp he

/-- A variable is not among those in front of it. -/
theorem notMem_done (h : order.Perm (vars.entries.map fun e => (e.1, e.2))) {name value : Str}
    {done rest : List (Str × Str)} (horder : order = done ++ (name, value) :: rest) :
    name ∉ done.map Prod.fst := by
  have hnames := h.map Prod.fst
  rw [List.map_map] at hnames
  have hnodup : (order.map Prod.fst).Nodup := hnames.nodup_iff.mpr vars.nodupKeys
  rw [horder, List.map_append, List.map_cons] at hnodup
  exact fun hmem => (List.nodup_append.mp hnodup).2.2 name hmem name (List.mem_cons_self ..) rfl

end Order

/-- When nothing is spelled by the values, the passes of the code replace the placeholders of
the template all at once, in whichever order the map yields the variables. -/
theorem expandVariables_expanded {template input : Str} {vars : Map Str Str}
    (h : NothingSpelled template input vars) (W : WorkflowWorld) :
    expandVariables W template input vars = expanded template input vars := by
  have hperm := W.iterate_perm vars
  have hvalue : ∀ name v, .hole name v ∈ partsOf opening closing (valueOf input vars) template →
      valueOf input vars name = some v := fun name v => value_of_mem_partsFrom 0 template
  have hfilled : ∀ name v, .hole name v ∈ partsOf opening closing (valueOf input vars) template →
      name ∈ [] ++ ((inputName, input) :: W.iterate vars).map Prod.fst := by
    intro name v hmem
    have hv := hvalue name v hmem
    by_cases hname : name = inputName
    · exact hname ▸ List.mem_cons_self ..
    · rw [valueOf, if_neg hname] at hv
      exact List.mem_cons_of_mem _
        (List.mem_map_of_mem (hperm.mem_iff.mpr (List.mem_map_of_mem (mem_entries.mpr hv))))
  have hpasses := foldl_replaceText_shown []
    (partsOf opening closing (valueOf input vars) template) ((inputName, input) :: W.iterate vars)
    mark_ne_nil fun done name value rest heq => by
      cases done with
      | nil =>
        cases heq
        refine ⟨fun _ v hv => ?_, h.ofInput⟩
        have hinput := hvalue _ v hv
        rw [valueOf, if_pos rfl] at hinput
        exact (Option.some.inj hinput).symm
      | cons b done =>
        obtain ⟨hfirst, horder⟩ := List.cons_eq_cons.mp heq
        subst hfirst
        have hmem : (name, value) ∈ W.iterate vars :=
          horder ▸ List.mem_append_right _ (List.mem_cons_self ..)
        have hlookup := lookup_of_mem_order hperm hmem
        have hfresh := notMem_done hperm horder
        constructor
        · intro hopen v hv
          have hne : name ≠ inputName := fun hname => hopen (hname ▸ List.mem_cons_self ..)
          have hown := hvalue _ v hv
          rw [valueOf, if_neg hne, hlookup] at hown
          exact (Option.some.inj hown).symm
        · refine h.ofVariable _ name (List.mem_cons_self ..) 
            (AList.lookup_isSome.mp (by simp [hlookup])) fun hmem => ?_
          exact (List.mem_cons.mp hmem).resolve_right hfresh
  calc expandVariables W template input vars
      = ((inputName, input) :: W.iterate vars).foldl
          (fun s b => replaceText s (mark opening closing b.1) b.2) template :=
        expandVariables_eq W template input vars
    _ = shown opening closing ([] ++ ((inputName, input) :: W.iterate vars).map Prod.fst)
          (partsOf opening closing (valueOf input vars) template) := by
        rw [← hpasses, partsOf, shown_partsFrom mark_ne_nil, List.drop_zero]
    _ = expanded template input vars := shown_of_filled hfilled

section Unbraced

/-- A part that has no opening brace of its own. -/
def Unbraced : Part → Prop
  | .char c => c ≠ '\x7b'
  | .hole name value => '\x7b' ∉ value ∧ '\x7b' ∉ name ∧ '\x7d' ∉ name

instance : DecidablePred Unbraced
  | .char c => inferInstanceAs (Decidable (c ≠ '\x7b'))
  | .hole name _ => inferInstanceAs (Decidable (_ ∧ _ ∧ '\x7d' ∉ name))

variable {filled : List Str} {name other k : Str}

theorem mark_prefix_cons {c : Char} {s : Str} (h : mark opening closing name <+: c :: s) :
    c = '\x7b' ∧ s.head? = some '\x7b' := by
  obtain ⟨t, ht⟩ := h
  have hmark : mark opening closing name = '\x7b' :: '\x7b' :: (name ++ closing) := by
    simp [mark, opening]
  rw [hmark, List.cons_append, List.cons_append] at ht
  obtain ⟨rfl, rfl⟩ := List.cons_eq_cons.mp ht
  exact ⟨rfl, rfl⟩

/-- The mark of one name does not begin in that of another. -/
theorem not_mark_prefix_of_ne (hname : '\x7d' ∉ name) (hother : '\x7b' ∉ other ∧ '\x7d' ∉ other)
    (hne : other ≠ name) : ∀ s, s <:+ mark opening closing other → s ≠ [] →
      ¬ mark opening closing name <+: s ++ k := by
  have hmark (n : Str) : mark opening closing n = '\x7b' :: '\x7b' :: (n ++ closing) := by
    simp [mark, opening]
  have hclosing : ∀ c ∈ closing, c ≠ '\x7b' := by simp [closing]
  have hplain : ∀ c ∈ other ++ closing, c ≠ '\x7b' := by
    intro c hc
    obtain hc | hc := List.mem_append.mp hc
    · exact fun h => hother.1 (h ▸ hc)
    · exact hclosing c hc
  intro s hs hnil hpre
  rw [hmark other, List.suffix_cons_iff, List.suffix_cons_iff] at hs
  obtain rfl | rfl | hs := hs
  · obtain ⟨t, ht⟩ := hpre
    rw [hmark name] at ht
    have hrest : name ++ '\x7d' :: ('\x7d' :: t) = other ++ '\x7d' :: ('\x7d' :: k) := by
      simpa [closing] using ht
    have hcut := congrArg (List.takeWhile (· ≠ '\x7d')) hrest
    have hpass (n : Str) (hn : '\x7d' ∉ n) : ∀ c ∈ n, decide (c ≠ '\x7d') = true :=
      fun c hc => decide_eq_true fun heq => hn (heq ▸ hc)
    rw [List.takeWhile_append_of_pos (hpass name hname),
      List.takeWhile_append_of_pos (hpass other hother.2)] at hcut
    exact hne (by simpa using hcut.symm)
  · have hhead := (mark_prefix_cons hpre).2
    cases hrest : other ++ closing with
    | nil => simp [closing] at hrest
    | cons c rest =>
      rw [hrest] at hhead hplain
      exact hplain c (List.mem_cons_self ..) (Option.some.inj hhead)
  · cases s with
    | nil => exact hnil rfl
    | cons c s => exact hplain c (hs.subset (List.mem_cons_self ..)) (mark_prefix_cons hpre).1

/-- No placeholder is spelled where neither the template, besides its placeholders, nor the
values in it have an opening brace. -/
theorem clear_of_unbraced {parts : List Part} (hname : '\x7d' ∉ name)
    (h : ∀ p ∈ parts, Unbraced p) : Clear opening closing filled name parts := by
  induction parts with
  | nil => trivial
  | cons p rest ih =>
    refine ⟨?_, ih fun p hp => h p (List.mem_cons_of_mem _ hp)⟩
    have hp := h p (List.mem_cons_self ..)
    cases p with
    | char c =>
      refine .inr fun s hs hnil hpre => ?_
      obtain rfl | hs := List.suffix_cons_iff.mp hs
      · exact hp (mark_prefix_cons hpre).1
      · exact hnil (List.suffix_nil.mp hs)
    | hole other value =>
      by_cases hfilled : other ∈ filled
      · rw [Part.shown, if_pos hfilled]
        refine .inr fun s hs hnil hpre => ?_
        cases s with
        | nil => exact hnil rfl
        | cons c s =>
          exact hp.1 ((mark_prefix_cons hpre).1 ▸ hs.subset (List.mem_cons_self ..))
      · by_cases hne : other = name
        · exact .inl ⟨hne ▸ hfilled, value, by rw [hne]⟩
        · rw [Part.shown, if_neg hfilled]
          exact .inr (not_mark_prefix_of_ne hname hp.2 hne)

theorem nothingSpelled_of_unbraced {template input : Str} {vars : Map Str Str}
    (hnames : ∀ name ∈ vars, '\x7d' ∉ name)
    (h : ∀ p ∈ partsOf opening closing (valueOf input vars) template, Unbraced p) :
    NothingSpelled template input vars where
  ofInput := clear_of_unbraced (by decide +kernel) h
  ofVariable _ name _ hname _ := clear_of_unbraced (hnames name hname) h

end Unbraced

/-- The input and a variable, with a colon between them. -/
def answerTemplate : Str := mark opening closing inputName ++ ':' :: mark opening closing ['b']

def answerVars : Map Str Str := (∅ : Map Str Str).insert ['b'] ['x']

theorem expandVariables_expanded_answer : NothingSpelled answerTemplate ['y'] answerVars ∧
    expandVariables (fixedWorld none .timedOut) answerTemplate ['y'] answerVars =
      ['y', ':', 'x'] := by
  have hparts : partsOf opening closing (valueOf ['y'] answerVars) answerTemplate =
      [.hole inputName ['y'], .char ':', .hole ['b'] ['x']] := by decide +kernel
  have hspelled : NothingSpelled answerTemplate ['y'] answerVars := by
    apply nothingSpelled_of_unbraced
    · intro name hname
      obtain rfl | hnone := (AList.mem_insert _).mp hname
      · decide
      · exact absurd hnone (AList.notMem_empty name)
    · rw [hparts]
      decide +kernel
  refine ⟨hspelled, (expandVariables_expanded hspelled _).trans ?_⟩
  rw [expanded, substitute, hparts]
  rfl

/-- Two variables, the value of the first being the placeholder of the second. -/
def quoting : Map Str Str :=
  ((∅ : Map Str Str).insert ['b'] ['x']).insert ['a'] (mark opening closing ['b'])

def quotingWorld : WorkflowWorld := fixedWorld none .timedOut

/-- The same world, but for the order in which its maps yield their entries. -/
def reversedWorld : WorkflowWorld where
  __ := quotingWorld
  iterate m := (quotingWorld.iterate m).reverse
  iterate_perm m := (List.reverse_perm _).trans (quotingWorld.iterate_perm m)

/-- The placeholder that comes from a value is expanded, or not, by the order of the map. -/
theorem expandVariables_rescans :
    expandVariables quotingWorld (mark opening closing ['a']) [] quoting = ['x'] ∧
    expandVariables reversedWorld (mark opening closing ['a']) [] quoting =
      mark opening closing ['b'] ∧
    ¬ ∀ (W : WorkflowWorld) (template input : Str) (vars : Map Str Str),
      expandVariables W template input vars = expanded template input vars := by
  have hforward : expandVariables quotingWorld (mark opening closing ['a']) [] quoting = ['x'] := by
    rw [expandVariables_eq]
    decide +kernel
  have hbackward : expandVariables reversedWorld (mark opening closing ['a']) [] quoting =
      mark opening closing ['b'] := by
    rw [expandVariables_eq]
    decide +kernel
  refine ⟨hforward, hbackward, fun h => ?_⟩
  have hsame := (h quotingWorld (mark opening closing ['a']) [] quoting).trans
    (h reversedWorld (mark opening closing ['a']) [] quoting).symm
  rw [hforward, hbackward] at hsame
  revert hsame
  decide +kernel

end Expanding

end Clawreform.Kernel.WorkflowVariables
