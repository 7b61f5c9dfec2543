import Clawreform.Lib.Json
import Mathlib.Data.Char
import Mathlib.Data.List.Lex
import Mathlib.Data.List.Perm.Basic

namespace Clawreform.Lib.JsonSchema

open Clawreform.Lib.Text
open Clawreform.Lib.Json (Value)

abbrev Fields := List (Str × Value)

/-- In every object a key stands once. -/
inductive Distinct : Value → Prop where
  | null : Distinct .null
  | bool {b : Bool} : Distinct (.bool b)
  | number {text : Str} : Distinct (.number text)
  | string {s : Str} : Distinct (.string s)
  | array {vs : List Value} (items : ∀ v ∈ vs, Distinct v) : Distinct (.array vs)
  | object {fields : Fields} (keys : (fields.map Prod.fst).Nodup)
      (values : ∀ e ∈ fields, Distinct e.2) : Distinct (.object fields)

section Maps

/-- Insertion into a map that is ordered by its keys. -/
@[grind =] def insertField (key : Str) (value : Value) : Fields → Fields
  | [] => [(key, value)]
  | e :: rest =>
    if key = e.1 then (key, value) :: rest
    else if key < e.1 then (key, value) :: e :: rest
    else e :: insertField key value rest

/-- The map that some insertions make. -/
def collect (entries : Fields) : Fields :=
  entries.foldl (fun fields e => insertField e.1 e.2 fields) []

def Sorted (fields : Fields) : Prop := fields.Pairwise fun e e' => e.1 < e'.1

variable {key : Str} {value : Value} {fields entries acc : Fields} {e : Str × Value}

theorem mem_insertField (h : e ∈ insertField key value fields) : e = (key, value) ∨ e ∈ fields := by
  induction fields with
  | nil => exact .inl (List.mem_singleton.mp h)
  | cons e' rest ih =>
    rw [insertField] at h
    split at h
    · obtain h | h := List.mem_cons.mp h
      · exact .inl h
      · exact .inr (List.mem_cons_of_mem _ h)
    · split at h
      · exact List.mem_cons.mp h
      · obtain h | h := List.mem_cons.mp h
        · exact .inr (h ▸ List.mem_cons_self)
        · exact (ih h).imp_right (List.mem_cons_of_mem _)

theorem mem_collect (h : e ∈ collect entries) : e ∈ entries := by
  have hfold : ∀ acc : Fields, e ∈ entries.foldl (fun fields e => insertField e.1 e.2 fields) acc →
      e ∈ acc ∨ e ∈ entries := by
    clear h
    induction entries with
    | nil => exact fun acc h => .inl h
    | cons e' entries ih =>
      intro acc h
      obtain h | h := ih _ h
      · obtain rfl | h := mem_insertField h
        · exact .inr List.mem_cons_self
        · exact .inl h
      · exact .inr (List.mem_cons_of_mem _ h)
  exact (hfold [] h).resolve_left (by simp)

theorem insertField_perm (h : key ∉ fields.map Prod.fst) :
    (insertField key value fields).Perm ((key, value) :: fields) := by
  induction fields with
  | nil => exact .refl _
  | cons e' rest ih =>
    rw [List.map_cons, List.mem_cons, not_or] at h
    rw [insertField, if_neg h.1]
    split
    · exact .refl _
    · exact ((ih h.2).cons e').trans (.swap _ _ _)

/-- With distinct keys nothing is overwritten. -/
theorem collect_perm (h : (entries.map Prod.fst).Nodup) : (collect entries).Perm entries := by
  have hfold : ∀ acc : Fields, ((acc ++ entries).map Prod.fst).Nodup →
      (entries.foldl (fun fields e => insertField e.1 e.2 fields) acc).Perm (acc ++ entries) := by
    clear h
    induction entries with
    | nil => intro acc _; simp
    | cons e' entries ih =>
      intro acc hnodup
      have hnew : e'.1 ∉ acc.map Prod.fst := by
        rw [List.map_append, List.nodup_append] at hnodup
        exact fun hmem => hnodup.2.2 _ hmem _ List.mem_cons_self rfl
      have hperm := @insertField_perm e'.1 e'.2 acc hnew
      have hmid : (insertField e'.1 e'.2 acc ++ entries).Perm (acc ++ e' :: entries) :=
        (hperm.append_right entries).trans List.perm_middle.symm
      exact (ih _ ((hmid.map Prod.fst).nodup_iff.mpr hnodup)).trans hmid
  exact hfold [] h

theorem sorted_insertField (h : Sorted fields) : Sorted (insertField key value fields) := by
  induction fields with
  | nil => exact List.pairwise_singleton _ _
  | cons e' rest ih =>
    obtain ⟨hhead, hrest⟩ := List.pairwise_cons.mp h
    rw [insertField]
    split
    · rename_i hkey
      exact List.pairwise_cons.mpr ⟨fun e he => hkey ▸ hhead e he, hrest⟩
    · rename_i hne
      split
      · rename_i hlt
        refine List.pairwise_cons.mpr ⟨?_, h⟩
        exact List.forall_mem_cons.mpr ⟨hlt, fun e he => hlt.trans (hhead e he)⟩
      · rename_i hge
        refine List.pairwise_cons.mpr ⟨?_, ih hrest⟩
        intro e he
        obtain rfl | he := mem_insertField he
        · exact lt_of_le_of_ne (not_lt.mp hge) (Ne.symm hne)
        · exact hhead e he

theorem sorted_collect : Sorted (collect entries) := by
  have hfold : ∀ acc : Fields, Sorted acc →
      Sorted (entries.foldl (fun fields e => insertField e.1 e.2 fields) acc) := by
    induction entries with
    | nil => exact fun acc h => h
    | cons e' entries ih => exact fun acc h => ih _ (sorted_insertField h)
  exact hfold [] List.Pairwise.nil

/-- What is ordered already stays as it is. -/
theorem collect_of_sorted (h : Sorted entries) : collect entries = entries := by
  have hlast : ∀ (acc : Fields) (e : Str × Value), (∀ e' ∈ acc, e'.1 < e.1) →
      insertField e.1 e.2 acc = acc ++ [e] := by
    intro acc e hlt
    induction acc with
    | nil => rfl
    | cons e' rest ih =>
      obtain ⟨hhead, hrest⟩ := List.forall_mem_cons.mp hlt
      rw [insertField, if_neg hhead.ne', if_neg (lt_asymm hhead), ih hrest]
      rfl
  have hfold : ∀ acc : Fields, Sorted (acc ++ entries) →
      entries.foldl (fun fields e => insertField e.1 e.2 fields) acc = acc ++ entries := by
    clear h
    induction entries with
    | nil => intro acc _; simp
    | cons e entries ih =>
      intro acc hsorted
      have hlt : ∀ e' ∈ acc, e'.1 < e.1 := fun e' he' =>
        (List.pairwise_append.mp hsorted).2.2 e' he' e List.mem_cons_self
      rw [List.foldl_cons, hlast acc e hlt, ih _ (by simpa using hsorted)]
      simp
  exact hfold [] h

end Maps

section Meaning

def typeKey : Str := "type".toList

def enumKey : Str := "enum".toList

def requiredKey : Str := "required".toList

def propertiesKey : Str := "properties".toList

def itemsKey : Str := "items".toList

def anyOfKey : Str := "anyOf".toList

def nullableKey : Str := "nullable".toList

/-- How the numbers are read: which are integers, and which values are the same one. -/
structure Reading where
  isInteger : Str → Bool
  same : Value → Value → Bool
  same_self (v : Value) : same v v = true

variable (r : Reading)

def hasType (name : Str) : Value → Bool
  | .null => name = "null".toList
  | .bool _ => name = "boolean".toList
  | .number text => name = "number".toList || (name = "integer".toList && r.isInteger text)
  | .string _ => name = "string".toList
  | .array _ => name = "array".toList
  | .object _ => name = "object".toList

def acceptsType : Value → Value → Bool
  | .string name, v => hasType r name v
  | .array names, v => names.any fun name => name.asStr.any fun name => hasType r name v
  | _, _ => true

def acceptsEnum : Value → Value → Bool
  | .array members, v => members.any fun member => r.same member v
  | _, _ => true

def acceptsRequired : Value → Value → Bool
  | .array names, .object fields =>
    names.all fun name => name.asStr.all fun name => fields.any fun e => e.1 = name
  | _, _ => true

def isNullable (fields : Fields) : Bool :=
  fields.any fun e => e.1 = nullableKey ∧ e.2 = .bool true

def elements : Value → List Value
  | .array vs => vs
  | _ => []

mutual

/-- The values that a schema accepts: those that satisfy its keywords, and null when it is
nullable. -/
@[grind =] def accepts : Value → Value → Bool
  | .object fields, v => (isNullable fields && v = .null) || acceptsFields fields v
  | .bool b, _ => b
  | _, _ => true
termination_by structural schema => schema

@[grind =] def acceptsFields : List (Str × Value) → Value → Bool
  | [], _ => true
  | (key, value) :: rest, v =>
    (if key = typeKey then acceptsType r value v
      else if key = enumKey then acceptsEnum r value v
      else if key = requiredKey then acceptsRequired value v
      else if key = propertiesKey then acceptsProperties value v
      else if key = itemsKey then (elements v).all fun item => accepts value item
      else if key = anyOfKey then acceptsAnyOf value v
      else true) && acceptsFields rest v
termination_by structural fields => fields

def acceptsProperties : Value → Value → Bool
  | .object props, .object fields => acceptsEach props fields
  | _, _ => true
termination_by structural value => value

def acceptsEach : List (Str × Value) → List (Str × Value) → Bool
  | [], _ => true
  | (name, schema) :: rest, fields =>
    (fields.lookup name).all (fun v => accepts schema v) && acceptsEach rest fields
termination_by structural props => props

def acceptsAnyOf : Value → Value → Bool
  | .array members, v => acceptsAny members v
  | _, _ => true
termination_by structural value => value

def acceptsAny : List Value → Value → Bool
  | [], _ => false
  | schema :: rest, v => accepts schema v || acceptsAny rest v
termination_by structural members => members

end

variable {r} {fields fields' : Fields} {v : Value}

/-- The keywords that have a say in what is accepted. -/
def keywords : List Str :=
  [typeKey, enumKey, requiredKey, propertiesKey, itemsKey, anyOfKey, nullableKey]

theorem acceptsFields_cons (e : Str × Value) (fields : Fields) :
    acceptsFields r (e :: fields) v = (acceptsFields r [e] v && acceptsFields r fields v) := by
  obtain ⟨key, value⟩ := e
  simp only [acceptsFields, Bool.and_true]

theorem acceptsFields_iff : acceptsFields r fields v = true ↔
    ∀ e ∈ fields, acceptsFields r [e] v = true := by
  induction fields with
  | nil => simp [acceptsFields]
  | cons e fields ih => rw [acceptsFields_cons, Bool.and_eq_true, ih, List.forall_mem_cons]

theorem acceptsFields_type {value : Value} :
    acceptsFields r [(typeKey, value)] v = acceptsType r value v := by
  simp only [acceptsFields, ↓reduceIte, Bool.and_true]

theorem acceptsFields_properties {value : Value} :
    acceptsFields r [(propertiesKey, value)] v = acceptsProperties r value v := by
  have htype : propertiesKey ≠ typeKey := by decide
  have henum : propertiesKey ≠ enumKey := by decide
  have hrequired : propertiesKey ≠ requiredKey := by decide
  simp only [acceptsFields, if_neg htype, if_neg henum, if_neg hrequired, ↓reduceIte,
    Bool.and_true]

theorem acceptsFields_items {value : Value} :
    acceptsFields r [(itemsKey, value)] v = (elements v).all fun item => accepts r value item := by
  have htype : itemsKey ≠ typeKey := by decide
  have henum : itemsKey ≠ enumKey := by decide
  have hrequired : itemsKey ≠ requiredKey := by decide
  have hproperties : itemsKey ≠ propertiesKey := by decide
  simp only [acceptsFields, if_neg htype, if_neg henum, if_neg hrequired, if_neg hproperties,
    ↓reduceIte, Bool.and_true]

theorem acceptsFields_anyOf {value : Value} :
    acceptsFields r [(anyOfKey, value)] v = acceptsAnyOf r value v := by
  have htype : anyOfKey ≠ typeKey := by decide
  have henum : anyOfKey ≠ enumKey := by decide
  have hrequired : anyOfKey ≠ requiredKey := by decide
  have hproperties : anyOfKey ≠ propertiesKey := by decide
  have hitems : anyOfKey ≠ itemsKey := by decide
  simp only [acceptsFields, if_neg htype, if_neg henum, if_neg hrequired, if_neg hproperties,
    if_neg hitems, ↓reduceIte, Bool.and_true]

theorem acceptsFields_nullable {value : Value} :
    acceptsFields r [(nullableKey, value)] v = true := by
  have htype : nullableKey ≠ typeKey := by decide
  have henum : nullableKey ≠ enumKey := by decide
  have hrequired : nullableKey ≠ requiredKey := by decide
  have hproperties : nullableKey ≠ propertiesKey := by decide
  have hitems : nullableKey ≠ itemsKey := by decide
  have hanyOf : nullableKey ≠ anyOfKey := by decide
  simp only [acceptsFields, if_neg htype, if_neg henum, if_neg hrequired, if_neg hproperties,
    if_neg hitems, if_neg hanyOf, Bool.and_true]

theorem acceptsFields_append : acceptsFields r (fields ++ fields') v =
    (acceptsFields r fields v && acceptsFields r fields' v) := by
  induction fields with
  | nil => simp [acceptsFields]
  | cons e fields ih =>
    rw [List.cons_append, acceptsFields_cons, ih, acceptsFields_cons e fields, Bool.and_assoc]

theorem acceptsFields_perm (h : fields.Perm fields') :
    acceptsFields r fields v = acceptsFields r fields' v := by
  induction h with
  | nil => rfl
  | cons e _ ih => rw [acceptsFields_cons, ih, ← acceptsFields_cons]
  | swap e e' fields =>
    rw [acceptsFields_cons e' (e :: fields), acceptsFields_cons e fields, Bool.and_left_comm,
      ← acceptsFields_cons e' fields, ← acceptsFields_cons e (e' :: fields)]
  | trans _ _ ih ih' => rw [ih, ih']

theorem isNullable_append :
    isNullable (fields ++ fields') = (isNullable fields || isNullable fields') :=
  List.any_append

theorem isNullable_of_notMem (h : nullableKey ∉ fields.map Prod.fst) :
    isNullable fields = false := by
  rw [isNullable, List.any_eq_false]
  intro e he hnull
  obtain ⟨hkey, -⟩ := of_decide_eq_true hnull
  exact h (List.mem_map.mpr ⟨e, he, hkey⟩)

theorem isNullable_perm (h : fields.Perm fields') : isNullable fields = isNullable fields' :=
  h.any_eq

theorem accepts_perm (h : fields.Perm fields') :
    accepts r (.object fields) v = accepts r (.object fields') v := by
  rw [accepts, accepts, isNullable_perm h, acceptsFields_perm h]

theorem acceptsFields_of_notMem {e : Str × Value} (h : e.1 ∉ keywords) :
    acceptsFields r [e] v = true := by
  obtain ⟨key, value⟩ := e
  have hne : ∀ keyword ∈ keywords, key ≠ keyword := by
    rintro keyword hmem rfl
    exact h hmem
  simp only [keywords, List.forall_mem_cons] at hne
  obtain ⟨htype, henum, hrequired, hproperties, hitems, hanyOf, -⟩ := hne
  simp only [acceptsFields, if_neg htype, if_neg henum, if_neg hrequired, if_neg hproperties,
    if_neg hitems, if_neg hanyOf, Bool.and_true]

theorem acceptsEach_iff {props : Fields} : acceptsEach r props fields = true ↔
    ∀ p ∈ props, (fields.lookup p.1).all (fun v => accepts r p.2 v) = true := by
  induction props with
  | nil => simp [acceptsEach]
  | cons p props ih => rw [acceptsEach, Bool.and_eq_true, ih, List.forall_mem_cons]

theorem acceptsEach_perm {props props' : Fields} (h : props.Perm props') :
    acceptsEach r props fields = acceptsEach r props' fields := by
  rw [Bool.eq_iff_iff, acceptsEach_iff, acceptsEach_iff]
  exact ⟨fun hall p hp => hall p (h.mem_iff.mpr hp), fun hall p hp => hall p (h.mem_iff.mp hp)⟩

/-- In a map the value of a key is the one of its entry. -/
theorem get_eq_some_iff {key : Str} {value : Value} (h : (fields.map Prod.fst).Nodup) :
    (Value.object fields).get key = some value ↔ (key, value) ∈ fields := by
  rw [Value.get]
  induction fields with
  | nil => simp
  | cons e fields ih =>
    obtain ⟨k, x⟩ := e
    obtain ⟨hk, hrest⟩ := List.nodup_cons.mp h
    rw [List.find?_cons]
    by_cases hkey : k = key
    · subst hkey
      have hnew : (k, value) ∉ fields := fun hmem => hk (List.mem_map.mpr ⟨_, hmem, rfl⟩)
      simp [hnew, eq_comm]
    · simp only [beq_eq_false_iff_ne.mpr hkey, ih hrest, List.mem_cons, Prod.mk.injEq,
        Ne.symm hkey, false_and, false_or]

end Meaning

end Clawreform.Lib.JsonSchema
