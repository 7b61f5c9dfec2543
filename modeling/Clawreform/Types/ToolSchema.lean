import Clawreform.Lib.JsonSchema
import Mathlib.Data.List.Nodup

namespace Clawreform.Types.ToolSchema

open Clawreform.Lib.Text Clawreform.Lib.JsonSchema
open Clawreform.Lib.Json (Value)

section Code

def schemaKey : Str := "$schema".toList

/-- The type that a member of the union names. -/
def memberType (item : Value) : Option Str := (item.get typeKey).bind Value.asStr

def tryFlattenAnyOf : Value → Option Fields
  | .array items =>
    if items = [] then none
    else
      (items.mapM memberType).bind fun names =>
        let types := names.filter (· ≠ "null".toList)
        match types with
        | [] => none
        | [nonNullType] =>
          if "null".toList ∈ names then
            some [(typeKey, .string nonNullType), (nullableKey, .bool true)]
          else none
        | _ =>
          if types.length = items.length then some [(typeKey, .array (types.map .string))]
          else none
  | _ => none

mutual

def normalizeSchemaRecursive : Value → Value
  | .object fields => .object (collect (normalizeFields fields))
  | schema => schema
termination_by structural schema => schema

/-- What is inserted into the new object, in this order. -/
def normalizeFields : List (Str × Value) → List (Str × Value)
  | [] => []
  | (key, value) :: rest =>
    (if key = schemaKey then []
      else
        match if key = anyOfKey then tryFlattenAnyOf value else none with
        | some converted => converted
        | none =>
          if key = propertiesKey then [(key, normalizeProperties value)]
          else if key = itemsKey then [(key, normalizeSchemaRecursive value)]
          else [(key, value)]) ++ normalizeFields rest
termination_by structural fields => fields

def normalizeProperties : Value → Value
  | .object props => .object (collect (normalizeEach props))
  | value => value
termination_by structural value => value

def normalizeEach : List (Str × Value) → List (Str × Value)
  | [] => []
  | (name, schema) :: rest => (name, normalizeSchemaRecursive schema) :: normalizeEach rest
termination_by structural props => props

end

def normalizeSchemaForProvider (schema : Value) (provider : Str) : Value :=
  if provider = "anthropic".toList then schema else normalizeSchemaRecursive schema

end Code

section Purpose

/-- A schema as the code has it: in every object a key stands once. -/
structure Schema where
  value : Value
  distinct : Distinct value

/-- What an object holds in its properties and items has a property. -/
def Children (P : Value → Prop) (fields : Fields) : Prop :=
  ∀ e ∈ fields, (e.1 = itemsKey → P e.2) ∧
    (e.1 = propertiesKey → ∀ props, e.2 = .object props →
      (props.map Prod.fst).Nodup ∧ ∀ p ∈ props, P p.2)

/-- The schemas that a schema holds in its properties and items, itself included. -/
inductive Reachable : Value → Value → Prop where
  | refl {s : Value} : Reachable s s
  | property {fields props : Fields} {name : Str} {s t : Value}
      (field : (propertiesKey, Value.object props) ∈ fields) (prop : (name, s) ∈ props)
      (below : Reachable s t) : Reachable (.object fields) t
  | items {fields : Fields} {s t : Value} (field : (itemsKey, s) ∈ fields)
      (below : Reachable s t) : Reachable (.object fields) t

/-- A member of a union that says nothing but its type. -/
def Bare (member : Value) : Prop :=
  ∀ fields, member = .object fields → ∀ e ∈ fields, e.1 ∈ keywords → e.1 = typeKey

/-- When the union is flattened, its members are bare, the new type and nullable overwrite nothing
and are not overwritten, and an enumeration beside a nullable union has null. -/
def FlattensPlainly (fields : Fields) : Prop :=
  ∀ members converted, (anyOfKey, Value.array members) ∈ fields →
    tryFlattenAnyOf (.array members) = some converted →
      (∀ member ∈ members, Bare member) ∧
      (∀ e ∈ fields, e.1 ≠ typeKey) ∧
      (isNullable converted → (∀ e ∈ fields, e.1 ≠ nullableKey) ∧
        ∀ allowed, (enumKey, Value.array allowed) ∈ fields → .null ∈ allowed)

/-- All unions that a schema holds in its properties and items flatten plainly. -/
def Plain (schema : Value) : Prop := ∀ fields, Reachable schema (.object fields) →
  FlattensPlainly fields

/-- Nothing of what the providers reject is left in an object. -/
def Clean (fields : Fields) : Prop :=
  ∀ e ∈ fields, e.1 ≠ schemaKey ∧ (e.1 = anyOfKey → tryFlattenAnyOf e.2 = none)

end Purpose

section Flattening

variable {α β : Type*} {r : Reading} {fields members converted : Fields} {v value : Value}
  {key : Str} {names : List Str} {items : List Value}

theorem length_mapM {f : α → Option β} {l : List α} {l' : List β} (h : l.mapM f = some l') :
    l'.length = l.length := by
  induction l generalizing l' with
  | nil =>
    cases h
    rfl
  | cons a l ih =>
    rw [List.mapM_cons] at h
    obtain ⟨b, -, h⟩ := Option.bind_eq_some_iff.mp h
    obtain ⟨l'', hl, h⟩ := Option.bind_eq_some_iff.mp h
    cases h
    rw [List.length_cons, List.length_cons, ih hl]

/-- The two ways to flatten a union. -/
theorem flatten_cases (h : tryFlattenAnyOf value = some converted) :
    ∃ items names, value = .array items ∧ items.mapM memberType = some names ∧
      ((∃ t, names.filter (· ≠ "null".toList) = [t] ∧ "null".toList ∈ names ∧
        converted = [(typeKey, .string t), (nullableKey, .bool true)]) ∨
      (names.filter (· ≠ "null".toList) = names ∧
        converted = [(typeKey, .array (names.map .string))])) := by
  unfold tryFlattenAnyOf at h
  split at h
  · rename_i items
    split at h
    · cases h
    · obtain ⟨names, hnames, h⟩ := Option.bind_eq_some_iff.mp h
      refine ⟨items, names, rfl, hnames, ?_⟩
      simp only at h
      split at h
      · cases h
      · rename_i t htypes
        split at h
        · rename_i hnull
          cases h
          exact .inl ⟨t, htypes, hnull, rfl⟩
        · cases h
      · split at h
        · rename_i hlen
          cases h
          have hall : names.filter (· ≠ "null".toList) = names :=
            List.filter_sublist.eq_of_length (hlen.trans (length_mapM hnames).symm)
          rw [hall]
          exact .inr ⟨rfl, rfl⟩
        · cases h
  · cases h

theorem normalizeFields_cons (e : Str × Value) (fields : Fields) :
    normalizeFields (e :: fields) = normalizeFields [e] ++ normalizeFields fields := by
  obtain ⟨key, value⟩ := e
  simp only [normalizeFields, List.append_nil]

/-- A bare member accepts the values of its type. -/
theorem accepts_bare {member : Value} {name : Str} (hdistinct : Distinct member)
    (hbare : Bare member) (hname : memberType member = some name) :
    accepts r member v = hasType r name v := by
  obtain ⟨value, hget, hvalue⟩ := Option.bind_eq_some_iff.mp hname
  cases hdistinct with
  | @object fs hkeys _ =>
    rw [get_eq_some_iff hkeys] at hget
    obtain rfl : value = .string name := by
      cases value with
      | string s => exact congrArg _ (Option.some.inj hvalue)
      | _ => cases hvalue
    have hnullable : isNullable fs = false := by
      rw [isNullable, List.any_eq_false]
      intro e he hnull
      obtain ⟨hkey, -⟩ := of_decide_eq_true hnull
      have htype := hbare fs rfl e he (hkey ▸ by decide)
      exact absurd (hkey.symm.trans htype) (by decide)
    rw [accepts, hnullable, Bool.false_and, Bool.false_or, Bool.eq_iff_iff, acceptsFields_iff]
    constructor
    · intro h
      have htype := h _ hget
      rwa [acceptsFields_type, acceptsType] at htype
    · intro h e he
      by_cases hkey : e.1 ∈ keywords
      · have htype := hbare fs rfl e he hkey
        obtain ⟨k, x⟩ := e
        obtain rfl : k = typeKey := htype
        rw [← get_eq_some_iff hkeys] at he hget
        cases he.symm.trans hget
        rw [acceptsFields_type, acceptsType]
        exact h
      · exact acceptsFields_of_notMem hkey
  | _ => cases hget

/-- A union of bare members accepts the values of its types. -/
theorem acceptsAny_bare (hdistinct : ∀ item ∈ items, Distinct item)
    (hbare : ∀ item ∈ items, Bare item) (hnames : items.mapM memberType = some names) :
    acceptsAny r items v = names.any fun name => hasType r name v := by
  induction items generalizing names with
  | nil =>
    obtain rfl : [] = names := Option.some.inj hnames
    rfl
  | cons item items ih =>
    rw [List.forall_mem_cons] at hdistinct hbare
    rw [List.mapM_cons] at hnames
    obtain ⟨name, hname, hnames⟩ := Option.bind_eq_some_iff.mp hnames
    obtain ⟨rest, hrest, hnames⟩ := Option.bind_eq_some_iff.mp hnames
    cases hnames
    rw [acceptsAny, accepts_bare hdistinct.1 hbare.1 hname, ih hdistinct.2 hbare.2 hrest,
      List.any_cons]

end Flattening

section Entries

variable {r : Reading} {fields fields' converted : Fields} {e e' : Str × Value}
  {v value : Value}

/-- What becomes of a value that is kept. -/
def normalizedValue (key : Str) (value : Value) : Value :=
  if key = propertiesKey then normalizeProperties value
  else if key = itemsKey then normalizeSchemaRecursive value
  else value

/-- What becomes of an entry. -/
theorem entry_cases (e : Str × Value) :
    (e.1 = schemaKey ∧ normalizeFields [e] = []) ∨
    (e.1 = anyOfKey ∧ ∃ converted, tryFlattenAnyOf e.2 = some converted ∧
      normalizeFields [e] = converted) ∨
    (e.1 ≠ schemaKey ∧ (e.1 = anyOfKey → tryFlattenAnyOf e.2 = none) ∧
      normalizeFields [e] = [(e.1, normalizedValue e.1 e.2)]) := by
  obtain ⟨key, value⟩ := e
  simp only [normalizeFields, List.append_nil]
  by_cases hschema : key = schemaKey
  · exact .inl ⟨hschema, if_pos hschema⟩
  · rw [if_neg hschema]
    refine .inr ?_
    by_cases hany : key = anyOfKey
    · rw [if_pos hany]
      cases hflat : tryFlattenAnyOf value with
      | some converted => exact .inl ⟨hany, converted, rfl, rfl⟩
      | none =>
        refine .inr ⟨hschema, fun _ => rfl, ?_⟩
        have hproperties : key ≠ propertiesKey := by
          rw [hany]
          decide
        have hitems : key ≠ itemsKey := by
          rw [hany]
          decide
        simp only [normalizedValue, if_neg hproperties, if_neg hitems]
    · rw [if_neg hany]
      refine .inr ⟨hschema, fun h => absurd h hany, ?_⟩
      simp only [normalizedValue]
      by_cases hproperties : key = propertiesKey
      · rw [if_pos hproperties, if_pos hproperties]
      · rw [if_neg hproperties, if_neg hproperties]
        by_cases hitems : key = itemsKey
        · rw [if_pos hitems, if_pos hitems]
        · rw [if_neg hitems, if_neg hitems]

theorem normalizeFields_perm (h : fields.Perm fields') :
    (normalizeFields fields).Perm (normalizeFields fields') := by
  induction h with
  | nil => exact .refl _
  | @cons e l₁ l₂ _ ih =>
    rw [normalizeFields_cons e l₁, normalizeFields_cons e l₂]
    exact ih.append_left _
  | swap e e' fields =>
    rw [normalizeFields_cons e' (e :: fields), normalizeFields_cons e fields,
      normalizeFields_cons e (e' :: fields), normalizeFields_cons e' fields]
    exact List.perm_append_comm_assoc _ _ _
  | trans _ _ ih ih' => exact ih.trans ih'

theorem mem_normalizeFields (h : e' ∈ normalizeFields fields) :
    ∃ e ∈ fields, e' ∈ normalizeFields [e] := by
  induction fields with
  | nil => cases h
  | cons e fields ih =>
    rw [normalizeFields_cons] at h
    obtain h | h := List.mem_append.mp h
    · exact ⟨e, List.mem_cons_self, h⟩
    · obtain ⟨e'', hmem, hin⟩ := ih h
      exact ⟨e'', List.mem_cons_of_mem _ hmem, hin⟩

theorem isNullable_nullable {name : Value} :
    isNullable [(typeKey, name), (nullableKey, .bool true)] = true := by
  simp [isNullable]

/-- The keys that are written for a flattened union. -/
def Written (converted : Fields) (key : Str) : Prop :=
  key = typeKey ∨ key = nullableKey ∧ isNullable converted

theorem written_of_flatten (h : tryFlattenAnyOf value = some converted) (he : e ∈ converted) :
    Written converted e.1 := by
  obtain ⟨_, _, -, -, ⟨t, -, -, hconverted⟩ | ⟨-, hconverted⟩⟩ := flatten_cases h
  · rw [hconverted] at he ⊢
    obtain he | he := List.mem_cons.mp he
    · exact .inl (congrArg Prod.fst he)
    · exact .inr ⟨congrArg Prod.fst (List.mem_singleton.mp he), isNullable_nullable⟩
  · rw [hconverted] at he
    exact .inl (congrArg Prod.fst (List.mem_singleton.mp he))

/-- The key of what is inserted for an entry. -/
theorem key_normalizeFields (h : e' ∈ normalizeFields [e]) :
    e'.1 = e.1 ∨ e.1 = anyOfKey ∧ ∃ converted, tryFlattenAnyOf e.2 = some converted ∧
      Written converted e'.1 := by
  obtain ⟨-, hnil⟩ | ⟨hkey, converted, hflat, heq⟩ | ⟨-, -, heq⟩ := entry_cases e
  · rw [hnil] at h
    cases h
  · rw [heq] at h
    exact .inr ⟨hkey, converted, hflat, written_of_flatten hflat h⟩
  · rw [heq] at h
    have hin : e' = (e.1, normalizedValue e.1 e.2) := List.mem_singleton.mp h
    exact .inl (hin ▸ rfl)

/-- What is written for a flattened union is not beside it. -/
theorem FlattensPlainly.not_written (h : FlattensPlainly fields) (hkey : e.1 = anyOfKey)
    (hflat : tryFlattenAnyOf e.2 = some converted) (hmem : e ∈ fields) (hmem' : e' ∈ fields) :
    ¬ Written converted e'.1 := by
  obtain ⟨members, -, hmembers, -⟩ := flatten_cases hflat
  obtain ⟨k, x⟩ := e
  obtain rfl : k = anyOfKey := hkey
  obtain rfl : x = .array members := hmembers
  obtain ⟨-, htype, hnull⟩ := h members converted hmem hflat
  rintro (hwritten | ⟨hwritten, hnullable⟩)
  · exact htype e' hmem' hwritten
  · exact (hnull hnullable).1 e' hmem' hwritten

theorem FlattensPlainly.of_subset (h : FlattensPlainly fields)
    (hsub : ∀ e ∈ fields', e ∈ fields) : FlattensPlainly fields' := by
  intro members converted hmem hflat
  obtain ⟨hbare, htype, hnull⟩ := h members converted (hsub _ hmem) hflat
  refine ⟨hbare, fun e he => htype e (hsub e he), fun hnullable => ?_⟩
  obtain ⟨hnone, henum⟩ := hnull hnullable
  exact ⟨fun e he => hnone e (hsub e he), fun allowed he => henum allowed (hsub _ he)⟩

theorem keys_entry (e : Str × Value) : ((normalizeFields [e]).map Prod.fst).Nodup := by
  obtain ⟨-, hnil⟩ | ⟨hkey, converted, hflat, heq⟩ | ⟨-, -, heq⟩ := entry_cases e
  · rw [hnil]
    exact List.nodup_nil
  · rw [heq]
    obtain ⟨_, _, -, -, ⟨t, -, -, hconverted⟩ | ⟨-, hconverted⟩⟩ := flatten_cases hflat
    · rw [hconverted]
      show [typeKey, nullableKey].Nodup
      decide
    · rw [hconverted]
      exact List.nodup_singleton _
  · rw [heq]
    exact List.nodup_singleton _

/-- Nothing is inserted twice. -/
theorem keys_normalizeFields (hkeys : (fields.map Prod.fst).Nodup)
    (hplain : FlattensPlainly fields) : ((normalizeFields fields).map Prod.fst).Nodup := by
  induction fields with
  | nil => exact List.nodup_nil
  | cons e fields ih =>
    obtain ⟨hnew, hrest⟩ := List.nodup_cons.mp hkeys
    rw [normalizeFields_cons, List.map_append, List.nodup_append]
    refine ⟨keys_entry e, ih hrest (hplain.of_subset fun _ => List.mem_cons_of_mem _), ?_⟩
    intro k hk k' hk' heq
    obtain ⟨e₁, he₁, rfl⟩ := List.mem_map.mp hk
    obtain ⟨e₂, he₂, rfl⟩ := List.mem_map.mp hk'
    obtain ⟨e', he', hin⟩ := mem_normalizeFields he₂
    have hne : e.1 ≠ e'.1 := by
      intro h
      exact hnew (h ▸ List.mem_map_of_mem he')
    have hmem' := List.mem_cons_of_mem e he'
    obtain h₁ | ⟨hany, converted, hflat, hwritten⟩ := key_normalizeFields he₁
    · obtain h₂ | ⟨hany', converted', hflat', hwritten'⟩ := key_normalizeFields hin
      · exact hne (h₁.symm.trans (heq.trans h₂))
      · rw [← heq, h₁] at hwritten'
        exact hplain.not_written hany' hflat' hmem' List.mem_cons_self hwritten'
    · obtain h₂ | ⟨hany', -⟩ := key_normalizeFields hin
      · rw [heq, h₂] at hwritten
        exact hplain.not_written hany hflat List.mem_cons_self hmem' hwritten
      · exact hne (hany.trans hany'.symm)

end Entries

section Kept

variable {r : Reading} {fields : Fields} {e : Str × Value} {s v value : Value}

/-- A schema and its normal form accept the same values. -/
def Agrees (r : Reading) (s : Value) : Prop :=
  ∀ v, accepts r (normalizeSchemaRecursive s) v = accepts r s v

theorem normalizeEach_eq_map (props : Fields) :
    normalizeEach props = props.map fun p => (p.1, normalizeSchemaRecursive p.2) := by
  induction props with
  | nil => rfl
  | cons p props ih => rw [normalizeEach, ih, List.map_cons]

theorem acceptsEach_normalizeEach {props fields : Fields} (h : ∀ p ∈ props, Agrees r p.2) :
    acceptsEach r (normalizeEach props) fields = acceptsEach r props fields := by
  induction props with
  | nil => rfl
  | cons p props ih =>
    obtain ⟨hp, hrest⟩ := List.forall_mem_cons.mp h
    have hv : (fun v => accepts r (normalizeSchemaRecursive p.2) v) = fun v => accepts r p.2 v :=
      funext hp
    rw [normalizeEach, acceptsEach, acceptsEach, ih hrest, hv]

theorem acceptsProperties_normalize
    (h : ∀ props, value = .object props →
      (props.map Prod.fst).Nodup ∧ ∀ p ∈ props, Agrees r p.2) :
    acceptsProperties r (normalizeProperties value) v = acceptsProperties r value v := by
  cases value with
  | object props =>
    obtain ⟨hkeys, hagrees⟩ := h props rfl
    rw [normalizeProperties]
    cases v with
    | object fields =>
      have hperm : (collect (normalizeEach props)).Perm (normalizeEach props) := by
        apply collect_perm
        rw [normalizeEach_eq_map, List.map_map]
        exact hkeys
      rw [acceptsProperties, acceptsProperties, acceptsEach_perm hperm,
        acceptsEach_normalizeEach hagrees]
    | _ => rfl
  | _ => rfl

/-- What is kept of an entry means what the entry meant. -/
theorem acceptsFields_kept (hitems : e.1 = itemsKey → Agrees r e.2)
    (hprops : e.1 = propertiesKey → ∀ props, e.2 = .object props →
      (props.map Prod.fst).Nodup ∧ ∀ p ∈ props, Agrees r p.2) :
    acceptsFields r [(e.1, normalizedValue e.1 e.2)] v = acceptsFields r [e] v := by
  obtain ⟨key, value⟩ := e
  by_cases hp : key = propertiesKey
  · subst hp
    rw [normalizedValue, if_pos rfl, acceptsFields_properties, acceptsFields_properties,
      acceptsProperties_normalize (hprops rfl)]
  · by_cases hi : key = itemsKey
    · subst hi
      have hv : (fun item => accepts r (normalizeSchemaRecursive value) item) =
          fun item => accepts r value item := funext (hitems rfl)
      rw [normalizedValue, if_neg hp, if_pos rfl, acceptsFields_items, acceptsFields_items, hv]
    · rw [normalizedValue, if_neg hp, if_neg hi]

theorem isNullable_kept : isNullable [(e.1, normalizedValue e.1 e.2)] = isNullable [e] := by
  obtain ⟨key, value⟩ := e
  by_cases hkey : key = nullableKey
  · have hp : key ≠ propertiesKey := by
      rw [hkey]
      decide
    have hi : key ≠ itemsKey := by
      rw [hkey]
      decide
    rw [normalizedValue, if_neg hp, if_neg hi]
  · rw [isNullable_of_notMem (by simpa using Ne.symm hkey),
      isNullable_of_notMem (by simpa using Ne.symm hkey)]

end Kept

section Meaning

variable {r : Reading} {fields rest members converted : Fields} {e : Str × Value} {s v : Value}
  {items : List Value}

/-- Where no union is flattened, the entries mean what they meant. -/
theorem same_of_kept (hkept : ∀ e ∈ fields, e.1 = anyOfKey → tryFlattenAnyOf e.2 = none)
    (hchildren : Children (Agrees r) fields) :
    isNullable (normalizeFields fields) = isNullable fields ∧
      acceptsFields r (normalizeFields fields) v = acceptsFields r fields v := by
  induction fields with
  | nil => exact ⟨rfl, rfl⟩
  | cons e fields ih =>
    rw [List.forall_mem_cons] at hkept
    obtain ⟨hhead, hrest⟩ := List.forall_mem_cons.mp hchildren
    obtain ⟨hnull, haccepts⟩ := ih hkept.2 hrest
    have hentry : isNullable (normalizeFields [e]) = isNullable [e] ∧
        acceptsFields r (normalizeFields [e]) v = acceptsFields r [e] v := by
      obtain ⟨hkey, hnil⟩ | ⟨hkey, converted, hflat, -⟩ | ⟨-, -, heq⟩ := entry_cases e
      · have hnot : e.1 ∉ keywords := by
          rw [hkey]
          decide
        have hnullable : e.1 ≠ nullableKey := by
          rw [hkey]
          decide
        rw [hnil, acceptsFields_of_notMem hnot,
          show isNullable [e] = false from
            isNullable_of_notMem (by simpa using hnullable.symm)]
        exact ⟨rfl, rfl⟩
      · exact absurd (hflat.symm.trans (hkept.1 hkey)) (by simp)
      · rw [heq]
        exact ⟨isNullable_kept, acceptsFields_kept hhead.1 hhead.2⟩
    rw [normalizeFields_cons, isNullable_append, acceptsFields_append, hnull, haccepts, hentry.1,
      hentry.2, ← isNullable_append, ← acceptsFields_append]
    exact ⟨rfl, rfl⟩

theorem hasType_null : hasType r "null".toList v = decide (v = .null) := by
  cases v <;> simp [hasType]

/-- What stands beside a union, its enumerations apart, has nothing against null. -/
theorem acceptsFields_null (htype : ∀ e ∈ rest, e.1 ≠ typeKey) (hany : ∀ e ∈ rest, e.1 ≠ anyOfKey)
    (henum : ∀ allowed, (enumKey, Value.array allowed) ∈ rest → .null ∈ allowed) :
    acceptsFields r rest .null = true := by
  rw [acceptsFields_iff]
  rintro ⟨key, value⟩ he
  have hkey : acceptsEnum r value .null = true ∨ key ≠ enumKey := by
    by_cases h : key = enumKey
    · left
      cases value with
      | array allowed =>
        exact List.any_eq_true.mpr ⟨.null, henum allowed (h ▸ he), r.same_self _⟩
      | _ => rfl
    · exact .inr h
  simp only [acceptsFields, if_neg (htype _ he), if_neg (hany _ he), Bool.and_true]
  split
  · rename_i h
    exact hkey.resolve_right (not_not.mpr h)
  · split
    · cases value <;> rfl
    · split
      · cases value <;> rfl
      · split <;> rfl

/-- A nullable union has the values of its other type and null. -/
theorem any_hasType_nullable {t : Str} {names : List Str}
    (htypes : names.filter (· ≠ "null".toList) = [t]) (hmem : "null".toList ∈ names) :
    names.any (fun name => hasType r name v) = (decide (v = .null) || hasType r t v) := by
  have hiff : ∀ name, name ∈ names ↔ name = "null".toList ∨ name = t := by
    intro name
    have hfilter : name ∈ names.filter (· ≠ "null".toList) ↔ name = t := by
      rw [htypes, List.mem_singleton]
    rw [List.mem_filter] at hfilter
    by_cases hname : name = "null".toList
    · exact ⟨fun _ => .inl hname, fun _ => hname ▸ hmem⟩
    · simp only [hname, false_or, ← hfilter, ne_eq, not_false_eq_true, decide_true, and_true]
  rw [Bool.eq_iff_iff, Bool.or_eq_true, List.any_eq_true]
  simp only [hiff]
  constructor
  · rintro ⟨name, rfl | rfl, h⟩
    · rw [hasType_null] at h
      exact .inl h
    · exact .inr h
  · rintro (h | h)
    · exact ⟨_, .inl rfl, hasType_null.trans h⟩
    · exact ⟨_, .inr rfl, h⟩

/-- The union of bare members and what it is flattened to, beside the same entries. -/
theorem flattened_accepts (hflat : tryFlattenAnyOf (.array items) = some converted)
    (hdistinct : ∀ item ∈ items, Distinct item) (hbare : ∀ item ∈ items, Bare item)
    (hnull : isNullable converted → isNullable rest = false ∧ acceptsFields r rest .null = true) :
    accepts r (.object (converted ++ rest)) v = (isNullable rest && decide (v = .null) ||
      acceptsAny r items v && acceptsFields r rest v) := by
  obtain ⟨_, names, hitems, hnames, hcases⟩ := flatten_cases hflat
  cases hitems
  rw [accepts, isNullable_append, acceptsFields_append, acceptsAny_bare hdistinct hbare hnames]
  obtain ⟨t, htypes, hmem, rfl⟩ | ⟨-, rfl⟩ := hcases
  · obtain ⟨hrest, haccepts⟩ := hnull isNullable_nullable
    rw [isNullable_nullable, hrest, acceptsFields_cons, acceptsFields_type,
      acceptsFields_nullable, Bool.and_true, acceptsType, any_hasType_nullable htypes hmem]
    by_cases hv : v = .null
    · subst hv
      rw [haccepts]
      simp
    · simp [hv]
  · have hnullable : isNullable [(typeKey, Value.array (names.map .string))] = false := by
      apply isNullable_of_notMem
      show nullableKey ∉ [typeKey]
      decide
    rw [hnullable, Bool.false_or, acceptsFields_type, acceptsType, List.any_map]
    rfl

/-- An object with a union that is flattened plainly. -/
theorem accepts_union (hflat : tryFlattenAnyOf (.array items) = some converted)
    (hnew : anyOfKey ∉ rest.map Prod.fst) (hdistinct : Distinct (.array items))
    (hplain : FlattensPlainly ((anyOfKey, .array items) :: rest))
    (hchildren : Children (Agrees r) rest) :
    accepts r (.object (normalizeFields ((anyOfKey, .array items) :: rest))) v =
      accepts r (.object ((anyOfKey, .array items) :: rest)) v := by
  obtain ⟨hbare, htype, hnull⟩ := hplain items converted List.mem_cons_self hflat
  have hnot : ∀ e ∈ rest, e.1 ≠ anyOfKey := fun e he h => hnew (List.mem_map.mpr ⟨e, he, h⟩)
  have hsame : ∀ v, isNullable (normalizeFields rest) = isNullable rest ∧
      acceptsFields r (normalizeFields rest) v = acceptsFields r rest v := fun v =>
    same_of_kept (fun e he h => absurd h (hnot e he)) hchildren
  have hentry : normalizeFields [(anyOfKey, .array items)] = converted := by
    obtain ⟨hkey, -⟩ | ⟨-, converted', hconverted', heq⟩ | ⟨-, hnone, -⟩ :=
      entry_cases (anyOfKey, .array items)
    · exact absurd (show anyOfKey = schemaKey from hkey) (by decide)
    · cases hflat.symm.trans hconverted'
      exact heq
    · exact absurd (hflat.symm.trans (hnone rfl)) (by simp)
  have hrest : isNullable converted → isNullable (normalizeFields rest) = false ∧
      acceptsFields r (normalizeFields rest) .null = true := by
    intro hnullable
    obtain ⟨hnone, henum⟩ := hnull hnullable
    rw [(hsame .null).1, (hsame .null).2]
    constructor
    · apply isNullable_of_notMem
      intro h
      obtain ⟨e, he, hkey⟩ := List.mem_map.mp h
      exact hnone e (List.mem_cons_of_mem _ he) hkey
    · exact acceptsFields_null (fun e he => htype e (List.mem_cons_of_mem _ he)) hnot
        fun allowed he => henum allowed (List.mem_cons_of_mem _ he)
  have hmembers : ∀ item ∈ items, Distinct item := by
    cases hdistinct with
    | array items => exact items
  have hunion : isNullable [(anyOfKey, Value.array items)] = false := by
    apply isNullable_of_notMem
    show nullableKey ∉ [anyOfKey]
    decide
  rw [normalizeFields_cons, hentry, flattened_accepts hflat hmembers hbare hrest, (hsame v).1,
    (hsame v).2, accepts, ← List.singleton_append, isNullable_append, hunion, Bool.false_or,
    acceptsFields_append, acceptsFields_anyOf, acceptsAnyOf]

/-- An object whose unions flatten plainly, and whose properties and items keep their meaning,
keeps its own. -/
theorem agrees_object (hkeys : (fields.map Prod.fst).Nodup) (hdistinct : ∀ e ∈ fields, Distinct e.2)
    (hplain : FlattensPlainly fields) (hchildren : Children (Agrees r) fields) :
    Agrees r (.object fields) := by
  intro v
  rw [normalizeSchemaRecursive, accepts_perm (collect_perm (keys_normalizeFields hkeys hplain))]
  by_cases hflat : ∃ e ∈ fields, e.1 = anyOfKey ∧ ∃ converted, tryFlattenAnyOf e.2 = some converted
  · obtain ⟨⟨key, value⟩, hmem, hkey, converted, hconverted⟩ := hflat
    obtain ⟨items, -, hitems, -⟩ := flatten_cases hconverted
    obtain rfl : key = anyOfKey := hkey
    obtain rfl : value = .array items := hitems
    obtain ⟨l₁, l₂, hfields⟩ := List.append_of_mem hmem
    have hperm : fields.Perm ((anyOfKey, .array items) :: (l₁ ++ l₂)) :=
      hfields ▸ List.perm_middle
    have hnew : anyOfKey ∉ (l₁ ++ l₂).map Prod.fst :=
      (List.nodup_cons.mp ((hperm.map Prod.fst).nodup_iff.mp hkeys)).1
    have hrest : Children (Agrees r) (l₁ ++ l₂) := fun e he =>
      hchildren e (hperm.mem_iff.mpr (List.mem_cons_of_mem _ he))
    have hplain' := hplain.of_subset fun _ => hperm.mem_iff.mpr
    rw [accepts_perm (normalizeFields_perm hperm), accepts_perm hperm,
      accepts_union hconverted hnew (hdistinct _ hmem) hplain' hrest]
  · have hkept : ∀ e ∈ fields, e.1 = anyOfKey → tryFlattenAnyOf e.2 = none := by
      intro e he hkey
      rw [Option.eq_none_iff_forall_ne_some]
      exact fun converted h => hflat ⟨e, he, hkey, converted, h⟩
    have hsame := @same_of_kept r fields v hkept hchildren
    rw [accepts, accepts, hsame.1, hsame.2]

end Meaning

section Walk

variable {P Q : Value → Prop} {r : Reading} {fields : Fields} {e : Str × Value} {s t : Value}

/-- The recursion of the code goes into the properties and items only. -/
theorem schema_induction (hother : ∀ s, (∀ fields, s ≠ .object fields) → P s)
    (hobject : ∀ fields : Fields, (fields.map Prod.fst).Nodup → (∀ e ∈ fields, Distinct e.2) →
      Children P fields → P (.object fields)) (h : Distinct s) : P s := by
  suffices hboth : P s ∧ ∀ props, s = .object props → ∀ p ∈ props, P p.2 from hboth.1
  induction h with
  | @object fields hkeys hvalues ih =>
    have hchildren : Children P fields := by
      refine fun e he => ⟨fun _ => (ih e he).1, fun _ props hprops => ?_⟩
      refine ⟨?_, (ih e he).2 props hprops⟩
      have hdistinct := hprops ▸ hvalues e he
      cases hdistinct with
      | object keys => exact keys
    refine ⟨hobject fields hkeys hvalues hchildren, ?_⟩
    intro props hprops p hp
    cases hprops
    exact (ih p hp).1
  | _ => exact ⟨hother _ (by simp), by simp⟩

/-- An entry of the new object is of a flattened union or is what is kept of an old entry. -/
theorem mem_normalized (h : e ∈ collect (normalizeFields fields)) :
    e.1 = typeKey ∨ e.1 = nullableKey ∨ ∃ e₀ ∈ fields, e₀.1 ≠ schemaKey ∧
      (e₀.1 = anyOfKey → tryFlattenAnyOf e₀.2 = none) ∧ e = (e₀.1, normalizedValue e₀.1 e₀.2) := by
  obtain ⟨e₀, hmem, hin⟩ := mem_normalizeFields (mem_collect h)
  obtain ⟨-, hnil⟩ | ⟨-, converted, hflat, heq⟩ | ⟨hschema, hany, heq⟩ := entry_cases e₀
  · rw [hnil] at hin
    cases hin
  · rw [heq] at hin
    obtain hkey | ⟨hkey, -⟩ := written_of_flatten hflat hin
    · exact .inl hkey
    · exact .inr (.inl hkey)
  · rw [heq] at hin
    exact .inr (.inr ⟨e₀, hmem, hschema, hany, List.mem_singleton.mp hin⟩)

theorem mem_of_kept {key : Str} {x : Value} (hkey : key ∉ [typeKey, nullableKey])
    (h : (key, x) ∈ collect (normalizeFields fields)) :
    ∃ value, (key, value) ∈ fields ∧ x = normalizedValue key value := by
  obtain htype | hnull | ⟨⟨key₀, value⟩, hmem, -, -, heq⟩ := mem_normalized h
  · exact absurd (htype ▸ List.mem_cons_self) hkey
  · exact absurd (hnull ▸ List.mem_cons_of_mem _ List.mem_cons_self) hkey
  · obtain ⟨rfl, hvalue⟩ := Prod.mk.inj heq
    exact ⟨value, hmem, hvalue⟩

theorem normalizedValue_of_ne (hprops : e.1 ≠ propertiesKey) (hitems : e.1 ≠ itemsKey) :
    normalizedValue e.1 e.2 = e.2 := by
  rw [normalizedValue, if_neg hprops, if_neg hitems]

/-- An entry that is neither removed nor flattened stays, with its value in normal form. -/
theorem normalizeFields_kept (hschema : e.1 ≠ schemaKey)
    (hany : e.1 = anyOfKey → tryFlattenAnyOf e.2 = none) :
    normalizeFields [e] = [(e.1, normalizedValue e.1 e.2)] := by
  obtain ⟨hkey, -⟩ | ⟨hkey, converted, hflat, -⟩ | ⟨-, -, heq⟩ := entry_cases e
  · exact absurd hkey hschema
  · exact absurd (hflat.symm.trans (hany hkey)) (by simp)
  · exact heq

theorem normalizeFields_of_stable (h : ∀ e ∈ fields, normalizeFields [e] = [e]) :
    normalizeFields fields = fields := by
  induction fields with
  | nil => rfl
  | cons e fields ih =>
    obtain ⟨he, hrest⟩ := List.forall_mem_cons.mp h
    rw [normalizeFields_cons, he, ih hrest, List.singleton_append]

theorem normalizeProperties_twice {value : Value}
    (h : ∀ props, value = .object props → ∀ p ∈ props,
      normalizeSchemaRecursive (normalizeSchemaRecursive p.2) = normalizeSchemaRecursive p.2) :
    normalizeProperties (normalizeProperties value) = normalizeProperties value := by
  cases value with
  | object props =>
    have hstable : normalizeEach (collect (normalizeEach props)) =
        collect (normalizeEach props) := by
      rw [normalizeEach_eq_map (collect _)]
      refine (List.map_congr_left fun p hp => ?_).trans (List.map_id _)
      have hmem := mem_collect hp
      rw [normalizeEach_eq_map, List.mem_map] at hmem
      obtain ⟨p₀, hp₀, rfl⟩ := hmem
      exact congrArg (Prod.mk p₀.1) (h props rfl p₀ hp₀)
    rw [normalizeProperties, normalizeProperties, hstable, collect_of_sorted sorted_collect]
  | _ => rfl

/-- What is in normal form stays as it is. -/
theorem normalize_twice (h : Distinct s) :
    normalizeSchemaRecursive (normalizeSchemaRecursive s) = normalizeSchemaRecursive s := by
  refine schema_induction (P := fun s => normalizeSchemaRecursive (normalizeSchemaRecursive s) =
    normalizeSchemaRecursive s) ?_ ?_ h
  · intro s hs
    cases s with
    | object fields => exact absurd rfl (hs fields)
    | _ => rfl
  · intro fields hkeys hvalues hchildren
    have hstable : normalizeFields (collect (normalizeFields fields)) =
        collect (normalizeFields fields) := by
      apply normalizeFields_of_stable
      intro e he
      obtain hkey | hkey | ⟨e₀, hmem, hschema, hany, rfl⟩ := mem_normalized he
      · rw [normalizeFields_kept (hkey ▸ by decide) fun h => absurd (hkey.symm.trans h) (by decide),
          normalizedValue_of_ne (hkey ▸ by decide) (hkey ▸ by decide)]
      · rw [normalizeFields_kept (hkey ▸ by decide) fun h => absurd (hkey.symm.trans h) (by decide),
          normalizedValue_of_ne (hkey ▸ by decide) (hkey ▸ by decide)]
      · have htwice : normalizedValue e₀.1 (normalizedValue e₀.1 e₀.2) =
            normalizedValue e₀.1 e₀.2 := by
          obtain ⟨hitems, hprops⟩ := hchildren e₀ hmem
          by_cases hp : e₀.1 = propertiesKey
          · simp only [normalizedValue, if_pos hp]
            exact normalizeProperties_twice fun props heq => (hprops hp props heq).2
          · by_cases hi : e₀.1 = itemsKey
            · simp only [normalizedValue, if_neg hp, if_pos hi]
              exact hitems hi
            · simp only [normalizedValue, if_neg hp, if_neg hi]
        have hkeep : e₀.1 = anyOfKey → tryFlattenAnyOf (normalizedValue e₀.1 e₀.2) = none := by
          intro h
          rw [normalizedValue_of_ne (h ▸ by decide) (h ▸ by decide)]
          exact hany h
        rw [@normalizeFields_kept (e₀.1, normalizedValue e₀.1 e₀.2) hschema hkeep, htwice]
    rw [normalizeSchemaRecursive, normalizeSchemaRecursive, hstable,
      collect_of_sorted sorted_collect]

theorem clean_collect : Clean (collect (normalizeFields fields)) := by
  intro e he
  obtain hkey | hkey | ⟨e₀, hmem, hschema, hany, rfl⟩ := mem_normalized he
  · exact ⟨hkey ▸ by decide, fun h => absurd (hkey.symm.trans h) (by decide)⟩
  · exact ⟨hkey ▸ by decide, fun h => absurd (hkey.symm.trans h) (by decide)⟩
  · refine ⟨hschema, fun h => ?_⟩
    rw [normalizedValue_of_ne (h ▸ by decide) (h ▸ by decide)]
    exact hany h

/-- In no schema that a normal form holds is anything left to remove. -/
theorem clean_of_reachable (h : Distinct s) :
    ∀ fields, Reachable (normalizeSchemaRecursive s) (.object fields) → Clean fields := by
  refine schema_induction (P := fun s => ∀ fields,
    Reachable (normalizeSchemaRecursive s) (.object fields) → Clean fields) ?_ ?_ h
  · intro s hs fields hreach
    cases s with
    | object fields => exact absurd rfl (hs fields)
    | _ => cases hreach
  · intro fields hkeys hvalues hchildren fields' hreach
    rw [normalizeSchemaRecursive] at hreach
    cases hreach with
    | refl => exact clean_collect
    | @property _ props name s' _ hfield hprop hbelow =>
      obtain ⟨value, hmem, hvalue⟩ := mem_of_kept (by decide) hfield
      rw [normalizedValue, if_pos rfl] at hvalue
      cases value with
      | object props₀ =>
        cases hvalue
        have hin := mem_collect hprop
        rw [normalizeEach_eq_map, List.mem_map] at hin
        obtain ⟨p, hp, hpair⟩ := hin
        cases hpair
        exact ((hchildren _ hmem).2 rfl props₀ rfl).2 p hp fields' hbelow
      | _ => cases hvalue
    | @items _ s' _ hfield hbelow =>
      obtain ⟨value, hmem, hvalue⟩ := mem_of_kept (by decide) hfield
      have hne : itemsKey ≠ propertiesKey := by decide
      rw [normalizedValue, if_neg hne, if_pos rfl] at hvalue
      subst hvalue
      exact (hchildren _ hmem).1 rfl fields' hbelow

/-- A schema whose unions flatten plainly means the same after it. -/
theorem agrees_of_plain (h : Distinct s) : Plain s → Agrees r s := by
  refine schema_induction (P := fun s => Plain s → Agrees r s) ?_ ?_ h
  · intro s hs _
    cases s with
    | object fields => exact absurd rfl (hs fields)
    | _ => exact fun v => rfl
  · intro fields hkeys hvalues hchildren hplain
    refine agrees_object hkeys hvalues (hplain fields .refl) fun e he => ?_
    obtain ⟨hitems, hprops⟩ := hchildren e he
    obtain ⟨key, value⟩ := e
    constructor
    · rintro rfl
      exact hitems rfl fun t ht => hplain t (.items he ht)
    · rintro rfl props rfl
      obtain ⟨hnodup, hall⟩ := hprops rfl props rfl
      exact ⟨hnodup, fun p hp => hall p hp fun t ht => hplain t (.property he hp ht)⟩

end Walk

section Main

variable (schema : Schema) (provider : Str) (r : Reading)

/-- Normalising keeps the meaning of a schema whose unions flatten plainly; its result stays as it
is and holds nothing that can still be removed. -/
theorem normalizeSchemaForProvider_correct
    (h : provider = "anthropic".toList ∨ Plain schema.value) :
    (∀ v, accepts r (normalizeSchemaForProvider schema.value provider) v =
      accepts r schema.value v) ∧
    normalizeSchemaForProvider (normalizeSchemaForProvider schema.value provider) provider =
      normalizeSchemaForProvider schema.value provider ∧
    (provider ≠ "anthropic".toList → ∀ fields,
      Reachable (normalizeSchemaForProvider schema.value provider) (.object fields) →
        Clean fields) := by
  by_cases hprovider : provider = "anthropic".toList
  · have hcode : ∀ s, normalizeSchemaForProvider s provider = s := fun s => if_pos hprovider
    rw [hcode, hcode]
    exact ⟨fun v => rfl, rfl, fun hne => absurd hprovider hne⟩
  · have hcode : ∀ s, normalizeSchemaForProvider s provider = normalizeSchemaRecursive s :=
      fun s => if_neg hprovider
    rw [hcode, hcode]
    exact ⟨agrees_of_plain schema.distinct (h.resolve_left hprovider),
      normalize_twice schema.distinct, fun _ => clean_of_reachable schema.distinct⟩

/-- Numbers are compared as they are printed. -/
def printed : Reading := ⟨fun text => '.' ∉ text, fun a b => a = b, by simp⟩

/-- `{"anyOf": [{"type": "string"}, {"type": "null"}]}` -/
def nullableText : Value :=
  .object [(anyOfKey, .array [.object [(typeKey, .string "string".toList)],
    .object [(typeKey, .string "null".toList)]])]

/-- `{"anyOf": [{"enum": ["a"], "type": "string"}, {"type": "number"}]}` -/
def letterOrNumber : Value :=
  .object [(anyOfKey, .array [.object [(enumKey, .array [.string "a".toList]),
    (typeKey, .string "string".toList)], .object [(typeKey, .string "number".toList)]])]

theorem distinct_nullableText : Distinct nullableText := by
  refine .object (by decide) ?_
  simp only [List.mem_singleton, forall_eq]
  refine .array ?_
  simp only [List.mem_cons, List.not_mem_nil, or_false, forall_eq_or_imp, forall_eq]
  exact ⟨.object (by decide) (by simpa using .string), .object (by decide) (by simpa using .string)⟩

theorem distinct_letterOrNumber : Distinct letterOrNumber := by
  refine .object (by decide) ?_
  simp only [List.mem_singleton, forall_eq]
  refine .array ?_
  simp only [List.mem_cons, List.not_mem_nil, or_false, forall_eq_or_imp, forall_eq]
  refine ⟨.object (by decide) ?_, .object (by decide) (by simpa using .string)⟩
  simp only [List.mem_cons, List.not_mem_nil, or_false, forall_eq_or_imp, forall_eq]
  exact ⟨.array (by simpa using .string), .string⟩

theorem plain_nullableText : Plain nullableText := by
  intro fields hreach
  cases hreach with
  | refl =>
    intro members converted hmem hflat
    obtain ⟨-, hmembers⟩ := Prod.mk.inj (List.mem_singleton.mp hmem)
    cases hmembers
    refine ⟨?_, ?_, ?_⟩
    · simp [Bare]
    · simp only [List.mem_singleton, forall_eq]
      decide
    · intro _
      constructor
      · simp only [List.mem_singleton, forall_eq]
        decide
      · intro allowed hallowed
        exact absurd (Prod.mk.inj (List.mem_singleton.mp hallowed)).1 (by decide)
  | property field _ _ =>
    exact absurd (Prod.mk.inj (List.mem_singleton.mp field)).1 (by decide)
  | items field _ =>
    exact absurd (Prod.mk.inj (List.mem_singleton.mp field)).1 (by decide)

theorem normalizeSchemaForProvider_correct_nullableText :
    (∀ v, accepts printed (normalizeSchemaForProvider nullableText "gemini".toList) v =
      accepts printed nullableText v) ∧
    normalizeSchemaForProvider (normalizeSchemaForProvider nullableText "gemini".toList)
      "gemini".toList = normalizeSchemaForProvider nullableText "gemini".toList ∧
    ("gemini".toList ≠ "anthropic".toList → ∀ fields,
      Reachable (normalizeSchemaForProvider nullableText "gemini".toList) (.object fields) →
        Clean fields) :=
  normalizeSchemaForProvider_correct ⟨nullableText, distinct_nullableText⟩ "gemini".toList printed
    (.inr plain_nullableText)

/-- What a member of a flattened union says beside its type is lost: `"b"` is accepted. -/
theorem not_meaning_kept : ¬ ∀ (schema : Schema) (provider : Str) (r : Reading) (v : Value),
    accepts r (normalizeSchemaForProvider schema.value provider) v = accepts r schema.value v := by
  intro h
  have heq := h ⟨letterOrNumber, distinct_letterOrNumber⟩ "gemini".toList printed
    (.string "b".toList)
  have hafter : accepts printed (normalizeSchemaForProvider letterOrNumber "gemini".toList)
      (.string "b".toList) = true := by decide
  have hbefore : accepts printed letterOrNumber (.string "b".toList) = false := by decide
  exact absurd (hafter.symm.trans (heq.trans hbefore)) (by decide)

end Main

end Clawreform.Types.ToolSchema
