import Clawreform.Lib.Text

namespace Clawreform.Lib.Template

open Clawreform.Lib.Text

/-- What a template consists of: its own characters, and the holes of names with the
values that belong there. -/
inductive Part where
  | char (c : Char)
  | hole (name value : Str)
  deriving DecidableEq

/-- The value, if the part has one. -/
def Part.filled : Part → Str
  | .char c => [c]
  | .hole _ value => value

section Reading

variable (opening closing : Str) (values : Str → Option Str)

def mark (name : Str) : Str := opening ++ name ++ closing

/-- The shortest name with a value whose mark stands at the beginning of a text. -/
def holeAt (s : Str) : Option (Str × Str) :=
  (stripPrefix opening s).bind fun body => (List.range body.length).findSome? fun k =>
    if closing <+: body.drop k then (values (body.take k)).map fun v => (body.take k, v) else none

/-- The parts of a template. The first argument counts the characters of a mark still to
pass. -/
def partsFrom : Nat → Str → List Part
  | _, [] => []
  | k + 1, _ :: s => partsFrom k s
  | 0, c :: s =>
    match holeAt opening closing values (c :: s) with
    | some (name, value) =>
      .hole name value :: partsFrom ((mark opening closing name).length - 1) s
    | none => .char c :: partsFrom 0 s

def partsOf (s : Str) : List Part := partsFrom opening closing values 0 s

/-- The template with every mark replaced by its value, all at once. -/
def substitute (s : Str) : Str := (partsOf opening closing values s).flatMap Part.filled

variable {opening closing values}

theorem holeAt_some {s name value : Str}
    (h : holeAt opening closing values s = some (name, value)) :
    mark opening closing name <+: s ∧ values name = some value := by
  obtain ⟨body, hbody, h⟩ := Option.bind_eq_some_iff.mp h
  obtain ⟨k, -, h⟩ := List.exists_of_findSome?_eq_some h
  have hs : s = opening ++ body := by
    unfold stripPrefix at hbody
    split at hbody
    · rename_i hpre
      obtain ⟨t, rfl⟩ := hpre
      rw [← Option.some.inj hbody, List.drop_left]
    · cases hbody
  split at h
  · rename_i hclose
    obtain ⟨v, hv, heq⟩ := Option.map_eq_some_iff.mp h
    cases heq
    obtain ⟨t, ht⟩ := hclose
    refine ⟨⟨t, ?_⟩, hv⟩
    rw [hs, mark, List.append_assoc, List.append_assoc, ht, List.take_append_drop]
  · cases h

theorem value_of_mem_partsFrom {name value : Str} (k : Nat) (s : Str)
    (h : .hole name value ∈ partsFrom opening closing values k s) : values name = some value := by
  induction k, s using partsFrom.induct opening closing values with
  | case1 k => cases k <;> cases h
  | case2 k c s ih => exact ih h
  | case3 c s name' value' hhole ih =>
    rw [partsFrom, hhole] at h
    obtain heq | h := List.mem_cons.mp h
    · cases heq
      exact (holeAt_some hhole).2
    · exact ih h
  | case4 c s hhole ih =>
    rw [partsFrom, hhole] at h
    obtain heq | h := List.mem_cons.mp h
    · cases heq
    · exact ih h

end Reading

section Filling

variable (opening closing : Str)

/-- A part when the holes of some names are filled: the other holes show their mark. -/
def Part.shown (filled : List Str) : Part → Str
  | .char c => [c]
  | .hole name value => if name ∈ filled then value else mark opening closing name

def shown (filled : List Str) (parts : List Part) : Str :=
  parts.flatMap (Part.shown opening closing filled)

/-- Searched from left to right for the mark of a name, the text shown has it at the open
holes of the name only. -/
def Clear (filled : List Str) (name : Str) : List Part → Prop
  | [] => True
  | p :: rest =>
    ((name ∉ filled ∧ ∃ value, p = .hole name value) ∨
      ∀ s, s <:+ p.shown opening closing filled → s ≠ [] →
        ¬ mark opening closing name <+: s ++ shown opening closing filled rest) ∧
    Clear filled name rest

variable {opening closing : Str} {filled : List Str} {parts : List Part}

theorem shown_partsFrom (hmark : ∀ name, mark opening closing name ≠ [])
    (values : Str → Option Str) (k : Nat) (s : Str) :
    shown opening closing [] (partsFrom opening closing values k s) = s.drop k := by
  induction k, s using partsFrom.induct opening closing values with
  | case1 k => cases k <;> rfl
  | case2 k c s ih => exact ih
  | case3 c s name value hhole ih =>
    obtain ⟨⟨t, ht⟩, -⟩ := holeAt_some hhole
    rw [partsFrom, hhole]
    show mark opening closing name ++ shown opening closing [] _ = c :: s
    obtain ⟨d, m, hm⟩ := List.exists_cons_of_ne_nil (hmark name)
    rw [hm, List.cons_append] at ht
    obtain ⟨rfl, rfl⟩ := List.cons_eq_cons.mp ht
    rw [ih, hm, List.length_cons, Nat.add_sub_cancel, List.drop_left, List.cons_append]
  | case4 c s hhole ih =>
    rw [partsFrom, hhole]
    exact congrArg (c :: ·) ih

/-- A search passes a text that no occurrence begins in. -/
theorem replaceText_pass {pat new t k : Str}
    (h : ∀ s, s <:+ t → s ≠ [] → ¬ pat <+: s ++ k) :
    replaceText (t ++ k) pat new = t ++ replaceText k pat new := by
  induction t with
  | nil => rfl
  | cons c t ih =>
    have hnot : ¬ pat <+: c :: (t ++ k) := h (c :: t) List.suffix_rfl (List.cons_ne_nil c t)
    rw [List.cons_append, replaceText_of_not hnot,
      ih fun s hs => h s (hs.trans (List.suffix_cons c t)), List.cons_append]

/-- One pass fills the open holes of a name, and nothing else. -/
theorem replaceText_shown {name value : Str} (hmark : mark opening closing name ≠ [])
    (hvalue : name ∉ filled → ∀ v, .hole name v ∈ parts → v = value)
    (h : Clear opening closing filled name parts) :
    replaceText (shown opening closing filled parts) (mark opening closing name) value =
      shown opening closing (filled ++ [name]) parts := by
  induction parts with
  | nil => rfl
  | cons p rest ih =>
    obtain ⟨hp, hrest⟩ := h
    have ih := ih (fun hopen v hv => hvalue hopen v (List.mem_cons_of_mem p hv)) hrest
    show replaceText (p.shown opening closing filled ++ shown opening closing filled rest) _ _ =
      p.shown opening closing (filled ++ [name]) ++ shown opening closing (filled ++ [name]) rest
    rw [← ih]
    by_cases hown : name ∉ filled ∧ ∃ v, p = .hole name v
    · obtain ⟨hopen, v, rfl⟩ := hown
      obtain rfl := hvalue hopen v (List.mem_cons_self ..)
      rw [Part.shown, if_neg hopen, Part.shown, if_pos (by simp)]
      obtain ⟨c, m, hm⟩ := List.exists_cons_of_ne_nil hmark
      rw [hm]
      exact replaceText_of_start
    · rw [replaceText_pass (hp.resolve_left hown)]
      congr 1
      cases p with
      | char c => rfl
      | hole n v =>
        by_cases hn : n ∈ filled
        · rw [Part.shown, if_pos hn, Part.shown, if_pos (List.mem_append_left _ hn)]
        · have hne : n ≠ name := by
            rintro rfl
            exact hown ⟨hn, v, rfl⟩
          rw [Part.shown, if_neg hn, Part.shown, if_neg (by simp [hn, hne])]

/-- Passes for one name after the other, each clear in front of it, fill the holes of all of
them. -/
theorem foldl_replaceText_shown (filled : List Str) (parts : List Part)
    (order : List (Str × Str))
    (hmark : ∀ name, mark opening closing name ≠ [])
    (h : ∀ done name value rest, order = done ++ (name, value) :: rest →
      (name ∉ filled ++ done.map Prod.fst → ∀ v, .hole name v ∈ parts → v = value) ∧
        Clear opening closing (filled ++ done.map Prod.fst) name parts) :
    order.foldl (fun s b => replaceText s (mark opening closing b.1) b.2)
        (shown opening closing filled parts) =
      shown opening closing (filled ++ order.map Prod.fst) parts := by
  induction order generalizing filled with
  | nil => rw [List.map_nil, List.append_nil]; rfl
  | cons b order ih =>
    obtain ⟨hvalue, hclear⟩ := h [] b.1 b.2 order rfl
    rw [List.map_nil, List.append_nil] at hvalue hclear
    rw [List.foldl_cons, replaceText_shown (hmark b.1) hvalue hclear, ih, List.map_cons,
      List.append_assoc, List.singleton_append]
    intro done name value rest heq
    have hstep := h (b :: done) name value rest (by rw [heq, List.cons_append])
    rwa [List.map_cons, ← List.singleton_append, ← List.append_assoc] at hstep

theorem shown_of_filled (h : ∀ name value, .hole name value ∈ parts → name ∈ filled) :
    shown opening closing filled parts = parts.flatMap Part.filled := by
  refine List.flatMap_congr fun p hp => ?_
  cases p with
  | char c => rfl
  | hole name value => exact if_pos (h name value hp)

end Filling

end Clawreform.Lib.Template
